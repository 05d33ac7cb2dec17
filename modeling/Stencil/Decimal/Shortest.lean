import Stencil.Decimal.Binary64
import Stencil.Text

/-! The shortest decimal that reads back as a given double, and its text. -/
namespace Stencil.Decimal

open Binary64 (leadingBit scaled)

/-- The multiple of `10 ^ k` that reads back as `m * 2 ^ q` and lies nearest to it, the larger of
two as near, if any reads back. Numbers are compared in quarters of `2 ^ q`; the bounds of what
reads back belong to it where `m` is even. -/
def onGrid (m : Nat) (q k : Int) : Option Nat :=
  let (tens, parts) := scaled 10 1 k
  let (twos, halves) := scaled 2 1 (q - 2)
  let step := tens * halves
  let unit := parts * twos
  let low := (4 * m - if m = leadingBit then 1 else 2) * unit
  let high := (4 * m + 2) * unit
  let reads (n : Nat) : Bool :=
    let x := n * step
    if m % 2 = 0 then low ≤ x && x ≤ high else low < x && x < high
  let below := 4 * m * unit / step
  match reads below, reads (below + 1) with
  | false, false => none
  | true, false => some below
  | false, true => some (below + 1)
  | true, true => some (if 2 * (4 * m * unit % step) < step then below else below + 1)

/-- Digits and a power of ten: as few digits as read back as `m * 2 ^ q`. The first grid tried is
wider than the number, and seventeen digits always read back. -/
def shortest (m : Nat) (q : Int) : Nat × Int :=
  let top := (m.log2 + 1 + q) * 30103 / 100000 + 1
  let hit (i : Nat) : Option (Nat × Int) := (onGrid m q (top - i)).map (·, top - i)
  ((List.range 20).findSome? hit).getD (0, 0)

/-- Writes `digits * 10 ^ exponent` out, without an exponent. -/
def positional (digits : Nat) (exponent : Int) : Text :=
  let ds := Nat.toDigits 10 digits
  if 0 ≤ exponent then ds ++ List.replicate exponent.toNat '0'
  else
    let places := exponent.natAbs
    if ds.length ≤ places then
      '0' :: '.' :: (List.replicate (places - ds.length) '0' ++ ds)
    else ds.take (ds.length - places) ++ '.' :: ds.drop (ds.length - places)

end Stencil.Decimal
