import Stencil.Expr.Parser

/-! Words read and reckoned at once, at a cursor that goes over them: every part is read to its
value, and no tree is made. -/
namespace Stencil

/-- An action that knows how many words are passed; `none` where the steps are used up. -/
abbrev Reckoning := StateT Nat (ExceptT ExprCause Option)

namespace Reckoner

open Stencil.Expr

-- The cursor goes over `ws`.
variable (ws : List Word)

/-- Passes the mark at the cursor, if it is one of `marks`. -/
def operator? (marks : List Mark) : Reckoning (Option Mark) := do
  match ws[← get]? with
  | some ⟨.mark m, _⟩ =>
    if marks.contains m then do
      modify (· + 1)
      return some m
    else return none
  | _ => return none

/-- Passes a mark that must be at the cursor. -/
def expect (m : Mark) : Reckoning Unit := do
  match ws[← get]? with
  | none => throw .unexpectedEnd
  | some ⟨.mark m', text⟩ => if m' = m then modify (· + 1) else throw (.unexpected text)
  | some w => throw (.unexpected w.text)

/-- The value of operands with operators of one level between them, from `left` on. -/
def chainFrom (marks : List Mark) (apply : Mark → Value → Value → Value)
    (operand : Reckoning Value) : Nat → Value → Reckoning Value
  | 0, _ => fun _ => none
  | steps + 1, left => do
    match ← operator? ws marks with
    | some m => chainFrom marks apply operand steps (apply m left (← operand))
    | none => return left

def chain (marks : List Mark) (apply : Mark → Value → Value → Value) (steps : Nat)
    (operand : Reckoning Value) : Reckoning Value := do
  chainFrom ws marks apply operand steps (← operand)

/-- What the operators of multiplication make of two values. -/
def multiply (m : Mark) (a b : Value) : Value :=
  let x := a.toNumber
  let y := b.toNumber
  .number (match m with
    | .star => x * y
    | .slash => x / y
    | _ => Binary64.remainder x y)

def add (m : Mark) (a b : Value) : Value :=
  match m, a, b with
  | .plus, .text s, _ => .text (s ++ b.toText)
  | .plus, _, .text t => .text (a.toText ++ t)
  | .plus, _, _ => .number (a.toNumber + b.toNumber)
  | _, _, _ => .number (a.toNumber - b.toNumber)

def compare (m : Mark) (a b : Value) : Value :=
  .bool ((a.compare? b).any fun ordering =>
    match m with
    | .lt => ordering.isLT
    | .le => ordering.isLE
    | .gt => ordering.isGT
    | _ => ordering.isGE)

def equate (m : Mark) (a b : Value) : Value :=
  .bool (match m with
    | .eq => a.looseEq b
    | .ne => !a.looseEq b
    | .strictEq => a.strictEq b
    | _ => !a.strictEq b)

/-- The value of an expression of binary operators, whose operands are of the given kind. -/
def or (steps : Nat) (unary : Reckoning Value) : Reckoning Value :=
  let multiplicative := chain ws [.star, .slash, .percent] multiply steps unary
  let additive := chain ws [.plus, .minus] add steps multiplicative
  let comparison := chain ws [.lt, .le, .gt, .ge] compare steps additive
  let equality := chain ws [.eq, .ne, .strictEq, .strictNe] equate steps comparison
  let and := chain ws [.and] (fun _ a b => if a.truthy then b else a) steps equality
  chain ws [.or] (fun _ a b => if a.truthy then a else b) steps and

/-- The value of a literal or of an expression in parentheses. -/
def primary (ternary : Reckoning Value) : Reckoning Value := do
  match ws[← get]? with
  | none => throw .unexpectedEnd
  | some w => do
    modify (· + 1)
    match w.symbol with
    | .literal v => return v
    | .name n => throw (.undefined n)
    | .mark .opening => do
      let v ← ternary
      expect ws .closing
      return v
    | _ => throw (.unexpected w.text)

mutual

def ternary : Nat → Reckoning Value
  | 0 => fun _ => none
  | steps + 1 => do
    let condition ← or ws steps (unary steps)
    match ← operator? ws [.question] with
    | none => return condition
    | some _ => do
      let yes ← ternary steps
      expect ws .colon
      let no ← ternary steps
      return if condition.truthy then yes else no

def unary : Nat → Reckoning Value
  | 0 => fun _ => none
  | steps + 1 => do
    match ← operator? ws [.minus, .plus, .not] with
    | some .minus => return .number (-(← unary steps).toNumber)
    | some .plus => return .number (← unary steps).toNumber
    | some _ => return .bool !(← unary steps).truthy
    | none => primary ws (ternary steps)

end

/-- The value of all the words together. -/
def all (steps : Nat) : Reckoning Value := do
  let v ← ternary ws steps
  match ws[← get]? with
  | none => return v
  | some w => throw (.unexpected w.text)

/-- The value of the source of an expression. -/
def run (steps : Nat) (source : Text) : ExceptT ExprCause Option Value := do
  let ws ← words source
  (all ws steps).run' 0

end Reckoner
end Stencil
