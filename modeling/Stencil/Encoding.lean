import Stencil.Text

/-! Bytes and the texts they encode. -/
namespace Stencil

abbrev Bytes := List UInt8

namespace Bytes

def hexDigit (n : Nat) : Char := Char.ofNat (if n < 10 then 48 + n else 87 + n)

/-- Two digits for each byte. -/
def hex (bs : Bytes) : Text :=
  bs.flatMap fun b => [hexDigit (b.toNat / 16), hexDigit (b.toNat % 16)]

/-- The bytes of a text in UTF-8. -/
def ofText (t : Text) : Bytes := (String.ofList t).toUTF8.data.toList

end Bytes

namespace Utf8

/-- Whether a byte goes on with a character. -/
def isTail (b : UInt8) : Bool := 0x80 ≤ b && b < 0xC0

/-- The second byte that a first byte of three or four allows. -/
def allows (first second : UInt8) : Bool :=
  if first = 0xE0 then 0xA0 ≤ second && second < 0xC0
  else if first = 0xED then 0x80 ≤ second && second < 0xA0
  else if first = 0xF0 then 0x90 ≤ second && second < 0xC0
  else if first = 0xF4 then 0x80 ≤ second && second < 0x90
  else isTail second

/-- The character whose bits are those of a first byte and the low six bits of others. -/
def assemble (first : Nat) (others : List UInt8) : Char :=
  Char.ofNat (others.foldl (fun n b => n * 64 + b.toNat % 64) first)

/-- The character that `b` and the bytes after it begin with, or `none` where they begin none; and
how many bytes after `b` belong to it, or to the longest beginning of a character. -/
def step (b : UInt8) (r : Bytes) : Option Char × Nat :=
  if b < 0x80 then (some (assemble b.toNat []), 0)
  else if 0xC2 ≤ b && b < 0xE0 then
    match r with
    | x :: _ => if isTail x then (some (assemble (b.toNat % 32) [x]), 1) else (none, 0)
    | [] => (none, 0)
  else if 0xE0 ≤ b && b < 0xF0 then
    match r with
    | x :: r =>
      if allows b x then
        match r with
        | y :: _ => if isTail y then (some (assemble (b.toNat % 16) [x, y]), 2) else (none, 1)
        | [] => (none, 1)
      else (none, 0)
    | [] => (none, 0)
  else if 0xF0 ≤ b && b < 0xF5 then
    match r with
    | x :: r =>
      if allows b x then
        match r with
        | y :: r =>
          if isTail y then
            match r with
            | z :: _ => if isTail z then (some (assemble (b.toNat % 8) [x, y, z]), 3) else (none, 2)
            | [] => (none, 2)
          else (none, 1)
        | [] => (none, 1)
      else (none, 0)
    | [] => (none, 0)
  else (none, 0)

/-- What the bytes say, `none` standing for each part that says nothing. -/
def read : Bytes → List (Option Char)
  | [] => []
  | b :: r => (step b r).1 :: read (r.drop (step b r).2)
termination_by bs => bs.length
decreasing_by simp only [List.length_cons, List.length_drop]; omega

/-- The text that the bytes encode, if all of them do. -/
def decode? (bs : Bytes) : Option Text := (read bs).mapM id

/-- The text that the bytes encode, with a replacement character for each part that says
nothing. -/
def decodeLossy (bs : Bytes) : Text := (read bs).map (·.getD (Char.ofNat 0xFFFD))

end Utf8

/-- The encodings that content may have. -/
inductive Encoding where
  | utf8
  | latin1
  | ascii
  deriving DecidableEq, Repr

namespace Encoding

/-- The encoding of a name, in either case. -/
def ofName? (name : Text) : Option Encoding :=
  let n := name.lower.str
  if n = "utf-8" || n = "utf8" then some utf8
  else if n = "latin1" || n = "latin-1" || n = "iso-8859-1" || n = "binary" then some latin1
  else if n = "ascii" then some ascii
  else none

/-- The characters with the numbers of the bytes. -/
def bytewise (bs : Bytes) : Text := bs.map fun b => Char.ofNat b.toNat

/-- The bytes with the numbers of characters. -/
def octets (t : Text) : Bytes := t.map fun c => UInt8.ofNat c.toNat

def decode? : Encoding → Bytes → Option Text
  | utf8, bs => Utf8.decode? bs
  | latin1, bs => some (bytewise bs)
  | ascii, bs => if bs.all (· < 0x80) then some (bytewise bs) else none

end Encoding

/-- The text of bytes in an encoding given by name, if the name is known and the bytes fit it. -/
def decode? (name : Text) (bs : Bytes) : Option Text := (Encoding.ofName? name).bind (·.decode? bs)

end Stencil
