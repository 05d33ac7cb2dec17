import Stencil.Digest.Older
import Stencil.Shell.Arithmetic
import Stencil.Shell.Utility.Lines

/-! Programs that show bytes as digests, as digits and as letters. -/
namespace Stencil.Shell.Utility

open Running

/-! ### Digests -/

/-- Compares digests that a list gives with those of the files that it names. -/
def checkSums (program : String) (digest : Bytes → Bytes) (g : Given) : Running Nat := do
  let mut bad := 0
  let mut unread := 0
  let mut status := 0
  for list in if g.operands.isEmpty then [['-']] else g.operands do
    match ← source list with
    | .error fault => do
      complainAs program (plainReason list fault)
      status := 1
    | .ok t =>
      for l in linesOf t do
        let sum := l.takeWhile fun c => (Number.digit? c).isSome
        let path := l.drop (sum.length + 2)
        if !path.isEmpty then
          match ← source path with
          | .ok content =>
            let fine := (digest (Encoding.octets content)).hex = Text.lower sum
            if !fine then bad := bad + 1
            if !g.has 's' && !(fine && g.has 'q') then
              out (path ++ (if fine then ": OK\n" else ": FAILED\n").toList)
          | .error fault => do
            unread := unread + 1
            complainAs program (plainReason path fault)
            if !g.has 's' then out (path ++ ": FAILED open or read\n".toList)
  let warn (n : Nat) (one many : String) : Running Unit := do
    if n ≠ 0 && !g.has 's' then
      complainAs program ("WARNING: ".toList ++ digits n ++ (if n = 1 then one else many).toList)
  warn unread " listed file could not be read" " listed files could not be read"
  warn bad " computed checksum did NOT match" " computed checksums did NOT match"
  pure (if bad ≠ 0 || unread ≠ 0 then 1 else status)

/-- Writes the digests of sources. -/
def sums (program label : String) (digest : Bytes → Bytes) (args : List Text) : Running Nat := do
  let o : Options := ⟨program, "bctqwsz", "", [("binary", 'b'), ("check", 'c'), ("text", 't'),
    ("quiet", 'q'), ("status", 's'), ("tag", 'T'), ("zero", 'z')], 1⟩
  let tagged := args.any (· = "--tag".toList)
  let g ← o.read (args.filter (· ≠ "--tag".toList))
  if g.has 'c' then checkSums program digest g
  else
    let ending := if g.has 'z' then ['\x00'] else ['\n']
    forSources program g.operands plainReason fun path t => do
      let sum := (digest (Encoding.octets t)).hex
      out (if tagged then label.toList ++ " (".toList ++ path ++ ") = ".toList ++ sum ++ ending
        else sum ++ ' ' :: (if g.has 'b' then '*' else ' ') :: path ++ ending)

def cksum (args : List Text) : Running Nat := do
  let o : Options := ⟨"cksum", "", "", [], 1⟩
  let g ← o.read args
  let named := !g.operands.isEmpty
  forSources "cksum" g.operands plainReason fun path t => do
    out (digits (Digest.crc (Encoding.octets t)).toNat ++ ' ' :: digits t.length ++
      (if named then ' ' :: path else []) ++ ['\n'])

/-! ### Letters for bytes -/

def alphabet : Text :=
  "ABCDEFGHIJKLMNOPQRSTUVWXYZabcdefghijklmnopqrstuvwxyz0123456789+/".toList

/-- Three bytes each as four letters. -/
def lettersOf : Text → Text
  | a :: b :: c :: r =>
    let n := a.toNat * 65536 + b.toNat * 256 + c.toNat
    [n / 262144, n / 4096 % 64, n / 64 % 64, n % 64].map (alphabet.getD · '=') ++ lettersOf r
  | [a, b] =>
    let n := a.toNat * 65536 + b.toNat * 256
    [n / 262144, n / 4096 % 64, n / 64 % 64].map (alphabet.getD · '=') ++ ['=']
  | [a] =>
    let n := a.toNat * 65536
    [n / 262144, n / 4096 % 64].map (alphabet.getD · '=') ++ ['=', '=']
  | [] => []

/-- The six bits that a letter stands for. -/
def letterValue? (c : Char) : Option Nat :=
  let i := alphabet.idxOf c
  if i < alphabet.length then some i else none

/-- The whole bytes in groups of six bits, from the bits that are left so far and their number. -/
def wholeBytes (rest bits : Nat) : List Nat → Text
  | [] => []
  | v :: vs =>
    let n := rest * 64 + v
    if bits < 2 then wholeBytes n (bits + 6) vs
    else
      let unit := Nat.pow 2 (bits - 2)
      Char.ofNat (n / unit) :: wholeBytes (n % unit) (bits - 2) vs

/-- The bytes that letters stand for, four by four as often as is allowed, and whether all of them
were well formed: two letters at least in every four, and nothing but `=` after them. -/
def bytesOf : Nat → Text → Text × Bool
  | _, [] => ([], true)
  | 0, _ => ([], false)
  | n + 1, t =>
    let four := t.take 4
    let values := ((four.map letterValue?).takeWhile Option.isSome).flatMap Option.toList
    let bytes := wholeBytes 0 0 values
    if four.length = 4 && 2 ≤ values.length && (four.drop values.length).all (· = '=') then
      let (more, fine) := bytesOf n (t.drop 4)
      (bytes ++ more, fine)
    else (bytes, false)

def base64 (args : List Text) : Running Nat := do
  let o : Options := ⟨"base64", "di", "w", [("decode", 'd'), ("ignore-garbage", 'i'),
    ("wrap", 'w')], 1⟩
  let g ← o.read args
  let asked := (g.value? 'w').getD "76".toList
  let width ← match amount? asked with
    | some n => pure n
    | none => refuse "base64" 1 ("invalid wrap size: ".toList ++ enclosed asked)
  match g.operands with
  | _ :: extra :: _ => o.misused ("extra operand ".toList ++ enclosed extra)
  | operands =>
    let path := operands.headD ['-']
    match ← source path with
    | .error fault => refuse "base64" 1 (plainReason path fault)
    | .ok t =>
      if g.has 'd' then
        let kept := t.filter fun c =>
          c ≠ '\n' && (!g.has 'i' || c = '=' || alphabet.any (· = c))
        let (decoded, fine) := bytesOf kept.length kept
        out decoded
        if fine then pure 0 else refuse "base64" 1 "invalid input".toList
      else do
        let letters := lettersOf t
        if width = 0 then out letters
        else if !letters.isEmpty then out (foldLine width letters.length letters ++ ['\n'])
        pure 0

/-! ### od -/

namespace Dump

/-- How bytes are shown: in what style, and how many of them make up one number. -/
structure Style where
  letter : Char
  size : Nat

/-- The style that a text names, if it names one. -/
def Style.ofText? (t : Text) : Option Style :=
  match t with
  | ['a'] => some ⟨'a', 1⟩
  | ['c'] => some ⟨'c', 1⟩
  | letter :: size =>
    if "duox".toList.any (· = letter) then
      match String.ofList size with
      | "" | "I" => some ⟨letter, 4⟩
      | "1" | "C" => some ⟨letter, 1⟩
      | "2" | "S" => some ⟨letter, 2⟩
      | "4" => some ⟨letter, 4⟩
      | "8" | "L" => some ⟨letter, 8⟩
      | _ => none
    else none
  | [] => none

/-- How many digits the largest number of a style has. -/
def Style.width (s : Style) : Nat :=
  let top := Nat.pow 256 s.size - 1
  match s.letter with
  | 'x' => 2 * s.size
  | 'o' => (Nat.toDigits 8 top).length
  | 'u' => (Nat.toDigits 10 top).length
  | 'd' => (Nat.toDigits 10 (top / 2)).length + 1
  | _ => 3

/-- The names of the first characters. -/
def names : List String :=
  ["nul", "soh", "stx", "etx", "eot", "enq", "ack", "bel", "bs", "ht", "nl", "vt", "ff", "cr", "so",
    "si", "dle", "dc1", "dc2", "dc3", "dc4", "nak", "syn", "etb", "can", "em", "sub", "esc", "fs",
    "gs", "rs", "us", "sp"]

/-- The text of the bytes of one number. -/
def Style.text (s : Style) (bs : Text) : Text :=
  let n := bs.foldr (fun c n => 256 * n + c.toNat) 0
  let filled (ds : Text) : Text := List.replicate (s.width - ds.length) '0' ++ ds
  match s.letter with
  | 'x' => filled (Nat.toDigits 16 n)
  | 'o' => filled (Nat.toDigits 8 n)
  | 'u' => Nat.toDigits 10 n
  | 'd' =>
    let top := Nat.pow 256 s.size
    Number.text (if 2 * n < top then n else (n : Int) - top)
  | 'a' =>
    let n := n % 128
    if n = 127 then "del".toList else if h : n < names.length then names[n].toList
      else [Char.ofNat n]
  | _ =>
    match Char.ofNat n with
    | '\x00' => ['\\', '0']
    | '\x07' => ['\\', 'a']
    | '\x08' => ['\\', 'b']
    | '\t' => ['\\', 't']
    | '\n' => ['\\', 'n']
    | '\x0b' => ['\\', 'v']
    | '\x0c' => ['\\', 'f']
    | '\x0d' => ['\\', 'r']
    | c => if ' ' ≤ c && c ≤ '~' then [c] else octal n

/-- The groups of a line, each as wide as `cell` says. -/
def Style.row (s : Style) (cell : Nat) : Nat → Text → Text
  | 0, _ | _, [] => []
  | n + 1, bs => padded cell (s.text (bs.take s.size)) ++ s.row cell n (bs.drop s.size)

/-- The lines of a dump, as many as are allowed: what stands in front of each, and the bytes. -/
def rows (width : Nat) : Nat → Nat → Text → List (Nat × Text)
  | 0, _, _ | _, _, [] => []
  | n + 1, offset, t => (offset, t.take width) :: rows width n (offset + width) (t.drop width)

end Dump

open Dump in
def od (args : List Text) : Running Nat := do
  let o : Options := ⟨"od", "abcdDeFhHilLoOsxXv", "AjNtw", [("address-radix", 'A'),
    ("skip-bytes", 'j'), ("read-bytes", 'N'), ("format", 't'), ("width", 'w'),
    ("output-duplicates", 'v')], 1⟩
  let g ← o.read args
  let short (c : Char) : List Style :=
    match c with
    | 'a' => [⟨'a', 1⟩]
    | 'b' => [⟨'o', 1⟩]
    | 'c' => [⟨'c', 1⟩]
    | 'd' => [⟨'u', 2⟩]
    | 'i' => [⟨'d', 4⟩]
    | 'l' => [⟨'d', 8⟩]
    | 'o' => [⟨'o', 2⟩]
    | 's' => [⟨'d', 2⟩]
    | 'x' | 'h' => [⟨'x', 2⟩]
    | 'X' | 'H' => [⟨'x', 4⟩]
    | 'O' => [⟨'o', 4⟩]
    | 'D' => [⟨'u', 4⟩]
    | _ => []
  let given ← g.options.mapM fun (c, t) => do
    if c = 't' then
      match Style.ofText? (if t.getLast? = some 'z' then t.dropLast else t) with
      | some s => pure [(s, t.getLast? = some 'z')]
      | none =>
        refuse "od" 1 ("invalid character '".toList ++ t.take 1 ++ "' in type string ".toList ++
          enclosed t)
    else pure ((short c).map (·, false))
  let styles := if given.flatten.isEmpty then [(⟨'o', 2⟩, false)] else given.flatten
  let natural (c : Char) : Option Nat := (g.value? c).bind amount?
  let (texts, status) ← sources "od" g.operands
  let skip := (natural 'j').getD 0
  let t := (texts.map Prod.snd).flatten.drop skip
  let t := (natural 'N').elim t t.take
  let width := (natural 'w').getD 16
  let radix := ((g.value? 'A').bind List.head?).getD 'o'
  let address (n : Nat) : Text :=
    let (base, size) : Nat × Nat := match radix with
      | 'd' => (10, 7)
      | 'x' => (16, 6)
      | _ => (8, 7)
    if radix = 'n' then []
    else
      let ds := Nat.toDigits base n
      List.replicate (size - ds.length) '0' ++ ds
  let cellFor (s : Style) : Nat :=
    let most := (styles.map fun (s, _) => (s.width + 1 + s.size - 1) / s.size).foldl max 0
    if styles.length = 1 then s.width + 1 else most * s.size
  let mut last : Option Text := none
  let mut starred := false
  for (offset, bs) in rows width (t.length + 1) skip t do
    if last = some bs && !g.has 'v' && bs.length = width then
      if !starred then out ['*', '\n']
      starred := true
    else
      for ((s, shows), i) in styles.zipIdx do
        let front := address offset
        let row := s.row (cellFor s) width bs
        let missing := (width - bs.length) / s.size * cellFor s
        let side : Text := if shows then
            List.replicate missing ' ' ++ "  >".toList ++
              bs.map (fun c => if ' ' ≤ c && c ≤ '~' then c else '.') ++ ['<']
          else []
        out ((if i = 0 then front else List.replicate front.length ' ') ++ row ++ side ++ ['\n'])
      starred := false
    last := some bs
  if radix ≠ 'n' then out (address (skip + t.length) ++ ['\n'])
  pure status

end Stencil.Shell.Utility
