import Stencil.Digest

/-! The digests MD5 and SHA-1, and the checksum by cyclic division. -/
namespace Stencil.Digest

def rotateLeft (x : UInt32) (n : UInt32) : UInt32 := x <<< n ||| x >>> (32 - n)

/-- The bytes of a word, the lowest first. -/
def lowFirst (w : UInt32) : Bytes :=
  [w.toUInt8, (w >>> 8).toUInt8, (w >>> 16).toUInt8, (w >>> 24).toUInt8]

/-- The bytes of a word, the highest first. -/
def highFirst (w : UInt32) : Bytes := (lowFirst w).reverse

/-- A digest in the making: as many words as it needs of these. -/
structure Words where
  a : UInt32
  b : UInt32
  c : UInt32
  d : UInt32
  e : UInt32

def Words.add (x y : Words) : Words :=
  ⟨x.a + y.a, x.b + y.b, x.c + y.c, x.d + y.d, x.e + y.e⟩

/-! ### MD5 -/

namespace Md5

/-- The constants of the rounds: the first bits of the fractions of sines. -/
def constants : List UInt32 :=
  [0xd76aa478, 0xe8c7b756, 0x242070db, 0xc1bdceee, 0xf57c0faf, 0x4787c62a, 0xa8304613, 0xfd469501,
    0x698098d8, 0x8b44f7af, 0xffff5bb1, 0x895cd7be, 0x6b901122, 0xfd987193, 0xa679438e, 0x49b40821,
    0xf61e2562, 0xc040b340, 0x265e5a51, 0xe9b6c7aa, 0xd62f105d, 0x02441453, 0xd8a1e681, 0xe7d3fbc8,
    0x21e1cde6, 0xc33707d6, 0xf4d50d87, 0x455a14ed, 0xa9e3e905, 0xfcefa3f8, 0x676f02d9, 0x8d2a4c8a,
    0xfffa3942, 0x8771f681, 0x6d9d6122, 0xfde5380c, 0xa4beea44, 0x4bdecfa9, 0xf6bb4b60, 0xbebfbc70,
    0x289b7ec6, 0xeaa127fa, 0xd4ef3085, 0x04881d05, 0xd9d4d039, 0xe6db99e5, 0x1fa27cf8, 0xc4ac5665,
    0xf4292244, 0x432aff97, 0xab9423a7, 0xfc93a039, 0x655b59c3, 0x8f0ccc92, 0xffeff47d, 0x85845dd1,
    0x6fa87e4f, 0xfe2ce6e0, 0xa3014314, 0x4e0811a1, 0xf7537e82, 0xbd3af235, 0x2ad7d2bb, 0xeb86d391]

/-- By how much each round of four turns, for each quarter. -/
def turns : List (List UInt32) :=
  [[7, 12, 17, 22], [5, 9, 14, 20], [4, 11, 16, 23], [6, 10, 15, 21]]

def round (block : Array UInt32) (w : Words) (p : UInt32 × Nat) : Words :=
  let (k, i) := p
  let (f, g) : UInt32 × Nat := match i / 16 with
    | 0 => ((w.b &&& w.c) ||| (~~~w.b &&& w.d), i)
    | 1 => ((w.d &&& w.b) ||| (~~~w.d &&& w.c), (5 * i + 1) % 16)
    | 2 => (w.b ^^^ w.c ^^^ w.d, (3 * i + 5) % 16)
    | _ => (w.c ^^^ (w.b ||| ~~~w.d), (7 * i) % 16)
  let turn := (turns.getD (i / 16) []).getD (i % 4) 0
  let sum := f + w.a + k + block.getD g 0
  ⟨w.d, w.b + rotateLeft sum turn, w.b, w.c, 0⟩

/-- Four bytes each as a word whose lowest byte comes first. -/
def words : Bytes → List UInt32
  | w :: x :: y :: z :: r =>
    (z.toUInt32 <<< 24 ||| y.toUInt32 <<< 16 ||| x.toUInt32 <<< 8 ||| w.toUInt32) :: words r
  | _ => []

/-- The message with a closing bit, zeros up to whole blocks, and its length in bits. -/
def pad (bs : Bytes) : Bytes :=
  let bits := 8 * bs.length
  let zeros := (119 - bs.length % 64) % 64
  let size := (List.range 8).map fun i => UInt8.ofNat (bits >>> (8 * i))
  bs ++ 0x80 :: (List.replicate zeros 0 ++ size)

end Md5

/-- The digest as 16 bytes. -/
def md5 (bs : Bytes) : Bytes :=
  let ws := Md5.words (Md5.pad bs)
  let start : Words := ⟨0x67452301, 0xefcdab89, 0x98badcfe, 0x10325476, 0⟩
  let absorb (w : Words) (block : List UInt32) : Words :=
    w.add ((Md5.constants.zipIdx).foldl (Md5.round block.toArray) w)
  let w := (blocks (ws.length / 16) ws).foldl absorb start
  [w.a, w.b, w.c, w.d].flatMap lowFirst

/-! ### SHA-1 -/

namespace Sha1

/-- The words of the rounds, the last first, after `n` more than are given. -/
def schedule : Nat → List UInt32 → List UInt32
  | 0, ws => ws
  | n + 1, ws =>
    let word (i : Nat) : UInt32 := ws.getD i 0
    schedule n (rotateLeft (word 2 ^^^ word 7 ^^^ word 13 ^^^ word 15) 1 :: ws)

def round (w : Words) (p : UInt32 × Nat) : Words :=
  let (x, i) := p
  let (f, k) : UInt32 × UInt32 := match i / 20 with
    | 0 => ((w.b &&& w.c) ||| (~~~w.b &&& w.d), 0x5a827999)
    | 1 => (w.b ^^^ w.c ^^^ w.d, 0x6ed9eba1)
    | 2 => ((w.b &&& w.c) ||| (w.b &&& w.d) ||| (w.c &&& w.d), 0x8f1bbcdc)
    | _ => (w.b ^^^ w.c ^^^ w.d, 0xca62c1d6)
  ⟨rotateLeft w.a 5 + f + w.e + k + x, w.a, rotateLeft w.b 30, w.c, w.d⟩

end Sha1

/-- The digest as 20 bytes. -/
def sha1 (bs : Bytes) : Bytes :=
  let ws := words (pad bs)
  let start : Words := ⟨0x67452301, 0xefcdab89, 0x98badcfe, 0x10325476, 0xc3d2e1f0⟩
  let absorb (w : Words) (block : List UInt32) : Words :=
    w.add ((Sha1.schedule 64 block.reverse).reverse.zipIdx.foldl Sha1.round w)
  let w := (blocks (ws.length / 16) ws).foldl absorb start
  [w.a, w.b, w.c, w.d, w.e].flatMap highFirst

/-! ### Cyclic division -/

/-- The remainder after eight more bits. -/
def crcByte (crc : UInt32) (b : UInt8) : UInt32 :=
  (List.range 8).foldl (fun (x : UInt32) _ =>
    if x &&& 0x80000000 = 0 then x <<< 1 else x <<< 1 ^^^ 0x04c11db7) (crc ^^^ b.toUInt32 <<< 24)

/-- The bytes of a number without zeros at its end, the lowest first, as many as are allowed. -/
def lengthBytes : Nat → Nat → Bytes
  | 0, _ => []
  | k + 1, n => if n = 0 then [] else UInt8.ofNat (n % 256) :: lengthBytes k (n / 256)

/-- The checksum of bytes and their number. -/
def crc (bs : Bytes) : UInt32 :=
  ~~~((bs ++ lengthBytes 8 bs.length).foldl crcByte 0)

end Stencil.Digest
