import Stencil.Decimal.Binary64
import Stencil.Text

/-! Reading decimals: their grammar, and the double nearest to what they say. -/
namespace Stencil.Decimal

/-- Cuts after the digits at the front. -/
def cutDigits (t : Text) : Text × Text := (t.takeWhile Char.isDigit, t.dropWhile Char.isDigit)

/-- The number that decimal digits write. -/
def digitsValue (ds : Text) : Nat := ds.foldl (fun n c => 10 * n + (c.toNat - '0'.toNat)) 0

/-- The exponent at the front, if one stands there, which is an `e` or `E`, perhaps a sign, and
digits: what it says, its text and the text after it. -/
def cutExponent? (t : Text) : Option (Int × Text × Text) :=
  match t with
  | e :: r =>
    if e = 'e' || e = 'E' then
      let (sign, r) := match r with
        | '+' :: r => (['+'], r)
        | '-' :: r => (['-'], r)
        | r => ([], r)
      match cutDigits r with
      | ([], _) => none
      | (ds, rest) =>
        let n : Int := digitsValue ds
        some (if sign = ['-'] then -n else n, e :: sign ++ ds, rest)
    else none
  | [] => none

/-- The double nearest to `digits * 10 ^ exponent`. -/
def nearest (negative : Bool) (digits : Nat) (exponent : Int) : Float :=
  let size : Int := (Nat.toDigits 10 digits).length + exponent
  if digits = 0 || size < -330 then Binary64.nearest negative 0 1
  else if 330 < size then Binary64.nearest negative (Nat.pow 10 330) 1
  else
    let (num, den) := Binary64.scaled 10 digits exponent
    Binary64.nearest negative num den

/-- The number that `whole . fraction` times a power of ten writes. -/
def value (negative : Bool) (whole fraction : Text) (exponent : Int) : Float :=
  nearest negative (digitsValue (whole ++ fraction)) (exponent - fraction.length)

/-- A number without its sign: digits around an optional point, of which at least one side has
some, then perhaps an exponent; or the name of infinity or of no number, in either case. -/
def readUnsigned? (negative : Bool) (t : Text) : Option Float :=
  let name := t.lower
  if name = "inf".toList || name = "infinity".toList then
    some (if negative then -1 / 0 else 1 / 0)
  else if name = "nan".toList then some (0 / 0)
  else
    let (whole, r) := cutDigits t
    let (fraction, r) := match r with
      | '.' :: r => cutDigits r
      | r => ([], r)
    if whole.isEmpty && fraction.isEmpty then none
    else match r with
      | [] => some (value negative whole fraction 0)
      | r =>
        match cutExponent? r with
        | some (e, _, []) => some (value negative whole fraction e)
        | _ => none

/-- The number that a whole text writes. -/
def read? : Text → Option Float
  | '-' :: t => readUnsigned? true t
  | '+' :: t => readUnsigned? false t
  | t => readUnsigned? false t

end Stencil.Decimal
