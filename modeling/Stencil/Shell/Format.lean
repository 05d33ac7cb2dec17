import Stencil.Decimal.Reading
import Stencil.Shell.Arithmetic

/-! Formatted output: escapes in texts, and formats in which conversions take arguments. -/
namespace Stencil.Shell.Format

/-! ### Escapes -/

def isOctal (c : Char) : Bool := '0' ≤ c && c ≤ '7'

/-- The character that a letter after a backslash stands for. -/
def escaped? (c : Char) : Option Char :=
  match c with
  | '\\' => some '\\'
  | 'a' => some '\x07'
  | 'b' => some '\x08'
  | 'e' => some '\x1b'
  | 'f' => some '\x0c'
  | 'n' => some '\n'
  | 'r' => some '\x0d'
  | 't' => some '\t'
  | 'v' => some '\x0b'
  | _ => none

/-- The character that the text after a backslash begins with, and how many characters say so. -/
def escape (t : Text) : Char × Nat :=
  match t with
  | [] => ('\\', 0)
  | c :: _ =>
    match escaped? c with
    | some k => (k, 1)
    | none =>
      let ds := (t.take 3).takeWhile isOctal
      if ds.isEmpty then ('\\', 0)
      else (Char.ofNat ((Number.digitsOf 8 ds).1 % 256), ds.length)

/-- A text with its escapes read, as many as are allowed, and whether it ends all output. -/
def unescapeFrom : Nat → Text → Text × Bool
  | 0, _ | _, [] => ([], false)
  | n + 1, '\\' :: r =>
    if r.head? = some 'c' then ([], true)
    else
      let r := match r with
        | '0' :: d :: r => if isOctal d then d :: r else '0' :: d :: r
        | r => r
      let (k, size) := escape r
      let (t, ended) := unescapeFrom n (r.drop size)
      (k :: t, ended)
  | n + 1, c :: r =>
    let (t, ended) := unescapeFrom n r
    (c :: t, ended)

/-- A text with its escapes read, and whether it ends all output. -/
def unescape (t : Text) : Text × Bool := unescapeFrom t.length t

/-- What `echo` writes. -/
def echo (args : List Text) : Text :=
  let (args, ending) : List Text × Text := match args with
    | ['-', 'n'] :: args => (args, [])
    | args => (args, ['\n'])
  let (t, ended) := unescape (Text.join [' '] args)
  if ended then t else t ++ ending

/-! ### Numbers -/

/-- What stands between `%` and the letter of a conversion. -/
structure Layout where
  flags : Text
  width : Nat
  precision : Option Nat
  deriving DecidableEq, Repr

namespace Layout

variable (l : Layout)

def has (c : Char) : Bool := l.flags.any (· = c)

/-- A text at the side of its field. -/
def place (t : Text) : Text :=
  let blanks := List.replicate (l.width - t.length) ' '
  if l.has '-' then t ++ blanks else blanks ++ t

/-- A number of a sign and digits in its field, which zeros may fill. -/
def placeNumber (sign digits : Text) (zeros : Bool) : Text :=
  if zeros && l.has '0' && !l.has '-' then
    sign ++ List.replicate (l.width - sign.length - digits.length) '0' ++ digits
  else l.place (sign ++ digits)

def sign (negative : Bool) : Text :=
  if negative then ['-'] else if l.has '+' then ['+'] else if l.has ' ' then [' '] else []

/-- Digits with as many zeros in front as the precision asks for. -/
def padded (ds : Text) : Text :=
  List.replicate (l.precision.getD 1 - ds.length) '0' ++ ds

/-- The text of a whole number. -/
def integer (n : Int) : Text :=
  let ds := if n = 0 && l.precision = some 0 then [] else Nat.toDigits 10 n.natAbs
  l.placeNumber (l.sign (n < 0)) (l.padded ds) l.precision.isNone

/-- The text of a number without a sign, in the base that a letter names. -/
def natural (letter : Char) (n : Nat) : Text :=
  let (base, front) : Nat × Text := match letter with
    | 'o' => (8, if l.has '#' && n ≠ 0 then ['0'] else [])
    | 'x' => (16, if l.has '#' && n ≠ 0 then ['0', 'x'] else [])
    | 'X' => (16, if l.has '#' && n ≠ 0 then ['0', 'X'] else [])
    | _ => (10, [])
  let ds := if n = 0 && l.precision = some 0 then [] else Nat.toDigits base n
  let ds := if letter = 'X' then ds.map Char.toUpper else ds
  l.placeNumber front (l.padded ds) l.precision.isNone

/-- The whole number nearest to a fraction, the even one of two as near. -/
def rounded (num den : Nat) : Nat :=
  let q := num / den
  let r := num % den
  if den < 2 * r || (den = 2 * r && q % 2 = 1) then q + 1 else q

/-- Digits with a point before the last ones, of which there are as many as is said. -/
def pointed (n places : Nat) : Text :=
  let ds := Nat.toDigits 10 n
  let ds := List.replicate (places + 1 - ds.length) '0' ++ ds
  let whole := ds.take (ds.length - places)
  if places = 0 then whole else whole ++ '.' :: ds.drop (ds.length - places)

/-- A fraction in as many places. -/
def fixed (num den places : Nat) : Text := pointed (rounded (num * Nat.pow 10 places) den) places

/-- The digits of a fraction that is not zero, one more than `places`, and the power of ten of the
first of them. -/
def scientific (num den places : Nat) : Nat × Int :=
  let guess : Int := (Nat.toDigits 10 num).length - (Nat.toDigits 10 den).length
  let at' (e : Int) : Nat :=
    let shift : Int := places - e
    if 0 ≤ shift then rounded (num * Nat.pow 10 shift.toNat) den
    else rounded num (den * Nat.pow 10 shift.natAbs)
  let top := Nat.pow 10 places
  let e := if at' guess < top then guess - 1 else guess
  let n := at' e
  if 10 * top ≤ n then (n / 10, e + 1) else (n, e)

def exponent (letter : Char) (e : Int) : Text :=
  let ds := Nat.toDigits 10 e.natAbs
  letter :: (if e < 0 then '-' else '+') :: (if ds.length < 2 then '0' :: ds else ds)

/-- Leaves out zeros at the end of a fraction. -/
def trimmed (t : Text) : Text :=
  if t.any (· = '.') then
    ((t.reverse.dropWhile (· = '0')).dropWhile (· = '.')).reverse
  else t

/-- The text of a double in the style that a letter names. -/
def double (letter : Char) (x : Float) : Text :=
  let capital := letter.isUpper
  let named (t : Text) : Text := if capital then t.map Char.toUpper else t
  if x.isNaN then l.place (named "nan".toList)
  else
    let parts := Binary64.parts x
    let sign := l.sign parts.negative
    if x.isInf then l.place (sign ++ named "inf".toList)
    else
      let (num, den) := Binary64.scaled 2 parts.mantissa parts.exponent
      let mark := if capital then 'E' else 'e'
      let spelled (places : Nat) : Text :=
        let (n, e) := if num = 0 then (0, 0) else scientific num den places
        pointed n places ++ exponent mark e
      let body := match letter.toLower with
        | 'f' => fixed num den (l.precision.getD 6)
        | 'e' => spelled (l.precision.getD 6)
        | _ =>
          let size := max 1 (l.precision.getD 6)
          let (n, e) := if num = 0 then (0, 0) else scientific num den (size - 1)
          let short (t : Text) : Text := if l.has '#' then t else trimmed t
          if -4 ≤ e && e < size then short (fixed num den (size - 1 - e).toNat)
          else short (pointed n (size - 1)) ++ exponent mark e
      l.placeNumber sign body true

end Layout

/-! ### Formats -/

/-- Output so far, last piece first; the arguments left; complaints about arguments, last first;
and whether all output is over. -/
structure Printing where
  pieces : List Text
  args : List Text
  complaints : List Text
  ended : Bool

namespace Printing

variable (p : Printing)

def add (t : Text) : Printing := { p with pieces := t :: p.pieces }

/-- Takes an argument, which is empty where there is none. -/
def argument : Text × Printing := (p.args.headD [], { p with args := p.args.tail })

/-- What is wrong with an argument that should be a number, given what is left of it. -/
def judged (arg : Text) (rest : Option Text) : Printing :=
  match rest with
  | none => { p with complaints := (arg ++ ": expected numeric value".toList) :: p.complaints }
  | some [] => p
  | some _ => { p with complaints := (arg ++ ": not completely converted".toList) :: p.complaints }

/-- Takes an argument as a whole number between two bounds. -/
def number (low high : Int) : Int × Printing :=
  let (arg, p) := p.argument
  match arg with
  | '"' :: c :: _ | '\'' :: c :: _ => (c.toNat, p)
  | ['"'] | ['\''] => (0, p)
  | [] => (0, p)
  | arg =>
    match Number.signed? true arg with
    | none => (0, p.judged arg none)
    | some (n, rest) =>
      if n < low || high < n then
        let line := arg ++ ": Numerical result out of range".toList
        (max low (min n high), { p with complaints := line :: p.complaints })
      else (n, p.judged arg (some rest))

/-- Takes an argument as a double. -/
def float : Float × Printing :=
  let (arg, p) := p.argument
  match arg with
  | '"' :: c :: _ | '\'' :: c :: _ => (Float.ofNat c.toNat, p)
  | [] => (0, p)
  | arg =>
    let body := arg.dropWhile Number.isBlank
    let sizes := (List.range (body.length + 1)).reverse
    match sizes.find? fun n => (Decimal.read? (body.take n)).isSome with
    | some n =>
      let x := (Decimal.read? (body.take n)).getD 0
      if x.isInf && body.any Char.isDigit then
        let line := arg ++ ": Numerical result out of range".toList
        (x, { p with complaints := line :: p.complaints })
      else (x, p.judged arg (some (body.drop n)))
    | none => (0, p.judged arg none)

end Printing

/-- The value of a width or a precision at the front, which may be that of an argument. -/
def measure (t : Text) (p : Printing) : Option Int × Text × Printing :=
  match t with
  | '*' :: r =>
    let (n, p) := p.number (-2147483648) 2147483647
    (some n, r, p)
  | t =>
    let ds := t.takeWhile Char.isDigit
    if ds.isEmpty then (none, t, p) else ((String.ofList ds).toInt?, t.drop ds.length, p)

/-- The layout at the front, and the text after it. -/
def layout (t : Text) (p : Printing) : Layout × Text × Printing :=
  let isFlag (c : Char) : Bool := "#-+ 0".toList.any (· = c)
  let flags := t.takeWhile isFlag
  let (width, r, p) := measure (t.dropWhile isFlag) p
  let (precision, r, p) : Option Int × Text × Printing := match r with
    | '.' :: r =>
      let (n, r, p) := measure r p
      (some (n.getD 0), r, p)
    | r => (none, r, p)
  let width := width.getD 0
  let flags := if width < 0 then '-' :: flags else flags
  let precision := precision.bind fun n => if n < 0 then none else some n.toNat
  (⟨flags, width.natAbs, precision⟩, r, p)

/-- Why a format cannot be used. -/
abbrev Refused := Text × Printing

/-- Uses a format once, as many characters of it as are allowed. -/
def once : Nat → Text → Printing → Except Refused Printing
  | 0, _, p | _, [], p => .ok p
  | n + 1, '\\' :: r, p =>
    let (c, size) := escape r
    once n (r.drop size) (p.add [c])
  | n + 1, '%' :: '%' :: r, p => once n r (p.add ['%'])
  | n + 1, '%' :: r, p =>
    let (l, rest, q) := layout r p
    match rest with
    | [] => .error ("missing format character".toList, q)
    | letter :: rest =>
      match letter with
      | 's' =>
        let (arg, q) := q.argument
        once n rest (q.add (l.place (l.precision.elim arg arg.take)))
      | 'c' =>
        let (arg, q) := q.argument
        once n rest (q.add (l.place (if arg.isEmpty then ['\x00'] else arg.take 1)))
      | 'b' =>
        let (arg, q) := q.argument
        let (t, ended) := unescape arg
        let q := q.add (l.place (l.precision.elim t t.take))
        if ended then .ok { q with ended := true } else once n rest q
      | 'd' | 'i' =>
        let (v, q) := q.number (-9223372036854775808) 9223372036854775807
        once n rest (q.add (l.integer v))
      | 'o' | 'u' | 'x' | 'X' =>
        let (v, q) := q.number (-18446744073709551615) 18446744073709551615
        once n rest (q.add (l.natural letter (v % 18446744073709551616).toNat))
      | 'e' | 'E' | 'f' | 'F' | 'g' | 'G' =>
        let (v, q) := q.float
        once n rest (q.add (l.double letter v))
      | _ =>
        let shown := '%' :: r.take (r.length - rest.length)
        .error (shown ++ ": invalid directive".toList, q)
  | n + 1, c :: r, p => once n r (p.add [c])

/-- Uses a format again and again while it takes arguments that are left. -/
def all : Nat → Text → Printing → Except Refused Printing
  | 0, _, p => .ok p
  | n + 1, t, p => do
    let q ← once t.length t p
    if q.ended || q.args.isEmpty || q.args.length = p.args.length then .ok q else all n t q

/-- What a format writes with arguments. -/
def print (t : Text) (args : List Text) : Except Refused Printing :=
  all (args.length + 1) t ⟨[], args, [], false⟩

end Stencil.Shell.Format
