import Stencil.Decimal.Reading
import Stencil.Decimal.Shortest
import Stencil.Text.Blank

/-! Expressions of the calculator and what they are worth. -/
namespace Stencil

/-- What an expression is worth. -/
inductive Value where
  | number (n : Float)
  | text (s : Text)
  | bool (b : Bool)

namespace Value

/-- The value as a number: a truth value is 1 or 0, blank text 0, other text what it writes. -/
def toNumber : Value → Float
  | number n => n
  | bool b => if b then 1 else 0
  | text s => if s.trim.isEmpty then 0 else (Decimal.read? s.trim).getD (0 / 0)

def truthy : Value → Bool
  | number n => n != 0 && !n.isNaN
  | text s => !s.isEmpty
  | bool b => b

/-- The text of a number: all its digits and no exponent, and no sign on zero. -/
def numberText (n : Float) : Text :=
  if n.isNaN then "NaN".toList
  else if n.isInf then (if 0 < n then "Infinity" else "-Infinity").toList
  else if n == 0 then ['0']
  else
    let p := Binary64.parts n
    let (digits, exponent) := Decimal.shortest p.mantissa p.exponent
    (if p.negative then ['-'] else []) ++ Decimal.positional digits exponent

def toText : Value → Text
  | number n => numberText n
  | text s => s
  | bool true => "true".toList
  | bool false => "false".toList

/-- Equality of texts, or of numbers where a side is no text. -/
def looseEq : Value → Value → Bool
  | text a, text b => a = b
  | a, b => a.toNumber == b.toNumber

/-- Equality of values of one kind. -/
def strictEq : Value → Value → Bool
  | number a, number b => a == b
  | text a, text b => a = b
  | bool a, bool b => a = b
  | _, _ => false

/-- How one value stands to another: texts by their characters, all else by number. -/
def compare? : Value → Value → Option Ordering
  | text a, text b => some (compareOfLessAndEq a b)
  | a, b =>
    let x := a.toNumber
    let y := b.toNumber
    if x < y then some .lt else if x == y then some .eq else if y < x then some .gt else none

end Value

inductive UnaryOp where
  | minus
  | plus
  | not
  deriving DecidableEq, Repr

inductive BinaryOp where
  | or
  | and
  | eq
  | ne
  | strictEq
  | strictNe
  | lt
  | le
  | gt
  | ge
  | add
  | sub
  | mul
  | div
  | rem
  deriving DecidableEq, Repr

def UnaryOp.apply : UnaryOp → Value → Value
  | .minus, v => .number (-v.toNumber)
  | .plus, v => .number v.toNumber
  | .not, v => .bool !v.truthy

def BinaryOp.apply : BinaryOp → Value → Value → Value
  | .or, a, b => if a.truthy then a else b
  | .and, a, b => if a.truthy then b else a
  | .eq, a, b => .bool (a.looseEq b)
  | .ne, a, b => .bool !a.looseEq b
  | .strictEq, a, b => .bool (a.strictEq b)
  | .strictNe, a, b => .bool !a.strictEq b
  | .lt, a, b => .bool ((a.compare? b).any Ordering.isLT)
  | .le, a, b => .bool ((a.compare? b).any Ordering.isLE)
  | .gt, a, b => .bool ((a.compare? b).any Ordering.isGT)
  | .ge, a, b => .bool ((a.compare? b).any Ordering.isGE)
  | .add, .text a, b => .text (a ++ b.toText)
  | .add, a, .text b => .text (a.toText ++ b)
  | .add, a, b => .number (a.toNumber + b.toNumber)
  | .sub, a, b => .number (a.toNumber - b.toNumber)
  | .mul, a, b => .number (a.toNumber * b.toNumber)
  | .div, a, b => .number (a.toNumber / b.toNumber)
  | .rem, a, b => .number (Binary64.remainder a.toNumber b.toNumber)

inductive Expr where
  | literal (v : Value)
  | unary (op : UnaryOp) (e : Expr)
  | binary (op : BinaryOp) (left right : Expr)
  | choice (condition yes no : Expr)

/-- Every part of an expression has a value, so the whole has one. -/
def Expr.value : Expr → Value
  | literal v => v
  | unary op e => op.apply e.value
  | binary op left right => op.apply left.value right.value
  | choice condition yes no => if condition.value.truthy then yes.value else no.value

end Stencil
