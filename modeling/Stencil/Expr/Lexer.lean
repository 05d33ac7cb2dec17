import Stencil.Expr

/-! Cutting the source of an expression into words. -/
namespace Stencil

/-- Why the source of an expression has no value. -/
inductive ExprCause where
  /-- No word begins like this. -/
  | invalid (text : Text)
  | unexpected (text : Text)
  | unexpectedEnd
  | undefined (name : Text)
  deriving DecidableEq, Repr

def ExprCause.message : ExprCause → String
  | .invalid text => s!"unrecognized input '{text.str}'"
  | .unexpected text => s!"unexpected '{text.str}'"
  | .unexpectedEnd => "unexpected end of expression"
  | .undefined name => s!"'{name.str}' is not defined"

namespace Expr

/-- Marks between operands. -/
inductive Mark where
  | plus
  | minus
  | star
  | slash
  | percent
  | lt
  | le
  | gt
  | ge
  | eq
  | ne
  | strictEq
  | strictNe
  | and
  | or
  | not
  | question
  | colon
  | opening
  | closing
  deriving DecidableEq, Repr

inductive Symbol where
  | literal (v : Value)
  | name (n : Text)
  | mark (m : Mark)

/-- A symbol with its exact text. -/
structure Word where
  symbol : Symbol
  text : Text

/-- The spellings of the marks, longer ones before what they begin with. -/
def spellings : List (Text × Mark) :=
  [("===".toList, .strictEq), ("!==".toList, .strictNe), ("==".toList, .eq), ("!=".toList, .ne),
    ("<=".toList, .le), (">=".toList, .ge), ("&&".toList, .and), ("||".toList, .or),
    (['<'], .lt), (['>'], .gt), (['+'], .plus), (['-'], .minus), (['*'], .star), (['/'], .slash),
    (['%'], .percent), (['!'], .not), (['?'], .question), ([':'], .colon), (['('], .opening),
    ([')'], .closing)]

/-- Blanks between words. -/
def isGap (c : Char) : Bool := c = ' ' || c = '\t' || c = '\r' || c = '\n'

def isNameStart (c : Char) : Bool := c.isAlpha || c = '_' || c = '$'

def isNameChar (c : Char) : Bool := c.isAlphanum || c = '_' || c = '$'

/-- The text of a quoted literal up to its closing quote, or `none` where it has no end, and how
much of the source was read. A line break cannot be escaped. -/
def quoted (quote : Char) : Text → Option Text × Nat
  | [] => (none, 0)
  | '\\' :: c :: r =>
    if c = '\n' then (none, 0)
    else
      let meant := if c = 'n' then '\n' else if c = 't' then '\t' else c
      let (inner, n) := quoted quote r
      (inner.map (meant :: ·), n + 2)
  | c :: r =>
    if c = quote then (some [], 1)
    else if c = '\\' then (none, 0)
    else
      let (inner, n) := quoted quote r
      (inner.map (c :: ·), n + 1)

/-- The number at the front of a text and how long it is. A point needs digits after it. -/
def number? (t : Text) : Option (Value × Nat) :=
  let (whole, r) := Decimal.cutDigits t
  let (fraction, r') :=
    match r with
    | '.' :: r => Decimal.cutDigits r
    | _ => ([], r)
  match whole, fraction with
  | [], [] => none
  | [], f => some (.number (Decimal.value false [] f 0), f.length + 1)
  | w, f =>
    let (rest, used) := match f with
      | [] => (r, w.length)
      | f => (r', w.length + 1 + f.length)
    match Decimal.cutExponent? rest with
    | some (e, text, _) => some (.number (Decimal.value false w f e), used + text.length)
    | none => some (.number (Decimal.value false w f 0), used)

/-- The symbol of a name: two names are values. -/
def nameSymbol (n : Text) : Symbol :=
  if n = "true".toList then .literal (.bool true)
  else if n = "false".toList then .literal (.bool false)
  else .name n

/-- The symbol at the front of a text, which is not empty, and how long it is; or how long the
part is that begins no symbol. -/
def symbol (c : Char) (r : Text) : Except Nat (Symbol × Nat) :=
  if c = '"' || c = '\'' then
    match quoted c r with
    | (some s, n) => .ok (.literal (.text s), n + 1)
    | (none, n) => .error (n + 1)
  else if isNameStart c then
    let n := c :: r.takeWhile isNameChar
    .ok (nameSymbol n, n.length)
  else match number? (c :: r) with
    | some (v, n) => .ok (.literal v, n)
    | none =>
      match spellings.find? fun (spelling, _) => spelling.isPrefixOf (c :: r) with
      | some (spelling, m) => .ok (.mark m, spelling.length)
      | none => .error 1

/-- The words of a source. A symbol is taken to be one character long at least. -/
def words : Text → Except ExprCause (List Word)
  | [] => .ok []
  | c :: r =>
    if isGap c then words r
    else match symbol c r with
      | .error n => .error (.invalid ((c :: r).take n))
      | .ok (s, n) => do
        let more ← words (r.drop (n - 1))
        pure (⟨s, (c :: r).take n⟩ :: more)
termination_by t => t.length
decreasing_by all_goals simp only [List.length_cons, List.length_drop]; omega

end Expr
end Stencil
