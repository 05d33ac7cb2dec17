/-! Doubles as exact numbers: taking one apart, the double nearest to a fraction, and the
remainder of a division. -/
namespace Stencil.Binary64

/-- A finite double: a sign and `mantissa * 2 ^ exponent`. -/
structure Parts where
  negative : Bool
  mantissa : Nat
  exponent : Int
  deriving DecidableEq, Repr

/-- The leading bit of a normal mantissa, which is not stored. -/
def leadingBit : Nat := 1 <<< 52

def parts (x : Float) : Parts :=
  let bits : Nat := x.toBits.toNat
  let fraction : Nat := bits % leadingBit
  let power : Nat := bits / leadingBit % 2048
  let negative : Bool := bits / leadingBit / 2048 = 1
  if power = 0 then ⟨negative, fraction, -1074⟩ else ⟨negative, leadingBit + fraction, power - 1075⟩

/-- The fraction that `n * b ^ k` is. -/
def scaled (b n : Nat) (k : Int) : Nat × Nat :=
  if 0 ≤ k then (n * Nat.pow b k.toNat, 1) else (n, Nat.pow b k.natAbs)

/-- The double nearest to `num / den`, an even one where two are as near. -/
def nearest (negative : Bool) (num den : Nat) : Float :=
  let place (e : Int) : Nat × Nat :=
    if 0 ≤ e then (num, den <<< e.toNat) else (num <<< e.natAbs, den)
  let guess : Int := (num.log2 : Int) - den.log2 - 53
  let (n, d) := place guess
  let e := max (-1074) (if 2 * leadingBit ≤ n / d then guess + 1 else guess)
  let (n, d) := place e
  let q := n / d
  let r := n % d
  let m := if d < 2 * r || (d = 2 * r && q % 2 = 1) then q + 1 else q
  let bits := if m < leadingBit then m else (e + 1075).toNat * leadingBit + (m - leadingBit)
  let bits := min bits (2047 * leadingBit)
  Float.ofBits (UInt64.ofNat (if negative then 2048 * leadingBit + bits else bits))

/-- What is left of `x` after taking away `y` as often as possible, with the sign of `x`. -/
def remainder (x y : Float) : Float :=
  if x.isNaN || y.isNaN || x.isInf || y == 0 then 0 / 0
  else if y.isInf then x
  else
    let a := parts x
    let b := parts y
    let e := min a.exponent b.exponent
    let left := a.mantissa <<< (a.exponent - e).toNat % (b.mantissa <<< (b.exponent - e).toNat)
    let (num, den) := scaled 2 left e
    nearest a.negative num den

end Stencil.Binary64
