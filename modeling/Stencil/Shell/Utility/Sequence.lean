import Stencil.Shell.Format
import Stencil.Shell.Utility.Options

/-! The program that counts from one number to another, in exact decimals. -/
namespace Stencil.Shell.Utility

open Running

/-- A decimal as it is written: its digits as a whole number, how many of them stand after the
point, and how many places and characters it shows. -/
structure Count where
  digits : Int
  scale : Nat
  places : Nat
  width : Nat
  /-- Whether it is a whole number without a point in base ten. -/
  plain : Bool

namespace Count

/-- The whole number that hexadecimal digits write. -/
def ofHex? (negative : Bool) (t : Text) : Option Count :=
  let (n, size) := Number.digitsOf 16 t
  if size = 0 || size ≠ t.length then none
  else some ⟨if negative then -n else n, 0, 0, (digits n).length, false⟩
where
  digits (n : Nat) : Text := Nat.toDigits 10 n

/-- The decimal that a text writes. -/
def ofText? (t : Text) : Option Count :=
  let t := t.dropWhile fun c => Number.isBlank c || c = '+'
  let (negative, body) : Bool × Text := match t with
    | '-' :: r => (true, r)
    | r => (false, r)
  match body with
  | '0' :: 'x' :: r | '0' :: 'X' :: r => ofHex? negative r
  | _ =>
    let (whole, r) := Decimal.cutDigits body
    let (pointed, fraction, r) : Bool × Text × Text := match r with
      | '.' :: r =>
        let (f, r) := Decimal.cutDigits r
        (true, f, r)
      | r => (false, [], r)
    let made (e : Int) (size : Nat) : Count :=
      let n : Int := Decimal.digitsValue (whole ++ fraction)
      let n := if negative then -n else n
      let scale : Int := fraction.length - e
      let places : Int := max 0 scale
      let base : Int := (t.length - size : Nat) +
        (if pointed then (if fraction.isEmpty then -1 else if whole.isEmpty then 1 else 0) else 0)
      let width : Int :=
        if size = 0 then base
        else if e < 0 then
          base + (if pointed then (if fraction.isEmpty then 1 else 0) else 1) - e
        else
          base - (if pointed && places = 0 && !fraction.isEmpty then 1 else 0) +
            (e - min (fraction.length : Int) e)
      ⟨if scale < 0 then n * Nat.pow 10 scale.natAbs else n, scale.toNat, places.toNat, width.toNat,
        !pointed && size = 0⟩
    if whole.isEmpty && fraction.isEmpty then none
    else match r with
      | [] => some (made 0 0)
      | r =>
        match Decimal.cutExponent? r with
        | some (e, shown, []) => some (made e shown.length)
        | _ => none

/-- The digits where so many of them stand after the point. -/
def at' (c : Count) (scale : Nat) : Int := c.digits * Nat.pow 10 (scale - c.scale)

end Count

namespace Sequence

/-- The text of `n` parts, of which so many as the scale says are one, with some places. -/
def fixed (n : Int) (scale places : Nat) : Text :=
  let t := Format.Layout.fixed n.natAbs (Nat.pow 10 scale) places
  if n < 0 then '-' :: t else t

/-- A text of a number with zeros after its sign, up to a width. -/
def widened (width : Nat) (t : Text) : Text :=
  match t with
  | '-' :: r => '-' :: List.replicate (width - t.length) '0' ++ r
  | t => List.replicate (width - t.length) '0' ++ t

/-- The numbers from one to another, as many as are allowed. -/
def numbers : Nat → Int → Int → Int → List Int
  | 0, _, _, _ => []
  | n + 1, a, step, last =>
    if (if 0 < step then last < a else a < last) then [] else a :: numbers n (a + step) step last

/-- A format with one conversion: what stands before it, its layout and letter, and what stands
after it; or what is wrong with it. -/
def formatOf (t : Text) : Except Text (Text × Format.Layout × Char × Text) :=
  let rec literal : Nat → Text → Text × Text
    | n + 1, '%' :: '%' :: r =>
      let (before, rest) := literal n r
      ('%' :: before, rest)
    | n + 1, c :: r =>
      if c = '%' then ([], c :: r)
      else
        let (before, rest) := literal n r
        (c :: before, rest)
    | _, r => ([], r)
  let (before, rest) := literal t.length t
  match rest with
  | '%' :: r =>
    let (l, r, _) := Format.layout r ⟨[], [], [], false⟩
    let r := match r with
      | 'L' :: r => r
      | r => r
    match r with
    | [] => .error ("format ".toList ++ enclosed t ++ " ends in %".toList)
    | c :: r =>
      if !"aAeEfFgG".toList.any (· = c) then
        .error ("format ".toList ++ enclosed t ++ " has unknown %".toList ++ c ::
          " directive".toList)
      else
        let (after, rest) := literal r.length r
        if rest.isEmpty then .ok (before, l, c, after)
        else .error ("format ".toList ++ enclosed t ++ " has too many % directives".toList)
  | _ => .error ("format ".toList ++ enclosed t ++ " has no % directive".toList)

/-- The number that is nearest to so many parts. -/
def double (n : Int) (scale : Nat) : Float := Decimal.nearest (n < 0) n.natAbs (-(scale : Int))

end Sequence

open Sequence in
def seq (args : List Text) : Running Nat := do
  let o : Options := ⟨"seq", "w", "fs", [("equal-width", 'w'), ("format", 'f'),
    ("separator", 's')], 1⟩
  let isNumber (a : Text) : Bool := match a with
    | '-' :: c :: _ => c.isDigit || c = '.'
    | _ => false
  let isOption (a : Text) : Bool := a.head? = some '-' && 1 < a.length && !isNumber a
  let rec cutOptions : List Text → List Text × List Text
    | [] => ([], [])
    | a :: rest =>
      if a = ['-', '-'] then ([], rest)
      else if isOption a then
        let (os, operands) := cutOptions rest
        if ["-s", "-f", "--separator", "--format"].contains (String.ofList a) then
          match operands, os with
          | v :: operands, [] => ([a, v], operands)
          | operands, os => (a :: os, operands)
        else (a :: os, operands)
      else ([], a :: rest)
  let (options, operands) := cutOptions args
  let g ← o.read options
  let count (t : Text) : Running Count := do
    match Count.ofText? t with
    | some c => pure c
    | none =>
      if t.lower = "nan".toList then
        o.misused ("invalid 'not-a-number' argument: ".toList ++ enclosed t)
      else if t.lower = "inf".toList || t.lower = "infinity".toList then
        pure ⟨Nat.pow 10 40, 0, 0, 3, false⟩
      else o.misused ("invalid floating point argument: ".toList ++ enclosed t)
  let one : Count := ⟨1, 0, 0, 1, true⟩
  let layout? ← match g.value? 'f' with
    | none => pure none
    | some t =>
      match formatOf t with
      | .ok l => pure (some l)
      | .error e => refuse "seq" 1 e
  let (a, step, last) ← match operands with
    | [] => o.misused "missing operand".toList
    | [b] => do pure (one, one, ← count b)
    | [a, b] => do pure (← count a, one, ← count b)
    | [a, s, b] => do
      let a ← count a
      let step ← count s
      if step.digits = 0 then
        o.misused ("invalid Zero increment value: ".toList ++ enclosed s)
      pure (a, step, ← count b)
    | _ :: _ :: _ :: d :: _ => o.misused ("extra operand ".toList ++ enclosed d)
  let scale := max a.scale (max step.scale last.scale)
  let places := max a.places step.places
  let ns := numbers 1000000 (a.at' scale) (step.at' scale) (last.at' scale)
  let width : Nat :=
    let front := a.width + (places - a.places) + (if a.places = 0 && 0 < places then 1 else 0)
    let back := last.width + places - last.places
    let back := if 0 < last.places && places = 0 then back - 1 else back
    max front (back + if last.places = 0 && 0 < places then 1 else 0)
  let text (n : Int) : Text :=
    match layout? with
    | some (before, l, c, after) => before ++ l.double c (double n scale) ++ after
    | none =>
      let t := fixed n scale places
      if g.has 'w' then widened width t else t
  let separator := (g.value? 's').getD ['\n']
  if !ns.isEmpty then out (Text.join separator (ns.map text) ++ ['\n'])
  pure 0

/-- The primes that a number is made of, as many as are allowed, from a divisor on. -/
def primesOf : Nat → Nat → Nat → List Nat
  | 0, _, n => if n ≤ 1 then [] else [n]
  | k + 1, d, n =>
    if n ≤ 1 then []
    else if n < d * d then [n]
    else if n % d = 0 then d :: primesOf k d (n / d)
    else primesOf k (if d = 2 then 3 else d + 2) n

def factor (args : List Text) : Running Nat := do
  let given ← if args.isEmpty then do
      let t ← input
      let words := t.map fun c => if c = ' ' || c = '\t' then '\n' else c
      pure ((Text.splitOn '\n' words).filter (!List.isEmpty ·))
    else pure args
  let mut status := 0
  for t in given do
    if !t.isEmpty && t.all Char.isDigit then
      let n := (Number.digitsOf 10 t).1
      out (digits n ++ ':' :: (primesOf 1000000 2 n).flatMap (fun p => ' ' :: digits p) ++ ['\n'])
    else do
      complainAs "factor" (enclosed t ++ " is not a valid positive integer".toList)
      status := 1
  pure status

end Stencil.Shell.Utility
