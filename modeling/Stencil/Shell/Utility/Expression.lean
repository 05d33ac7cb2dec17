import Stencil.Shell.Regex
import Stencil.Shell.Utility.Options

/-! The program that works out expressions, each operand and operator an argument of its own. -/
namespace Stencil.Shell.Utility

open Running

namespace Expression

/-- What an expression is worth. -/
inductive Value where
  | number (n : Int)
  | text (t : Text)
  deriving DecidableEq, Repr

namespace Value

def text' : Value → Text
  | number n => Number.text n
  | text t => t

/-- The whole number that a text writes, without blanks. -/
def number? (t : Text) : Option Int :=
  let ds := if t.head? = some '-' then t.tail else t
  if ds.isEmpty || !ds.all Char.isDigit then none
  else
    let n : Int := (Number.digitsOf 10 ds).1
    some (if t.head? = some '-' then -n else n)

def toNumber? : Value → Option Int
  | number n => some n
  | text t => number? t

/-- Whether a value counts as nothing: zero, or no text. -/
def isNull : Value → Bool
  | number n => n = 0
  | text t =>
    let ds := if t.head? = some '-' then t.tail else t
    t.isEmpty || !ds.isEmpty && ds.all (· = '0')

end Value

/-- What is left of the arguments, and the argument before it. -/
structure Rest where
  args : List Text
  before : Text

abbrev Reader := StateT Rest (Except Text)

namespace Reader

def fail {α : Type} (t : Text) : Reader α := throw t

def wrong {α : Type} (t : Text) : Reader α := fail ("syntax error: ".toList ++ t)

/-- Goes over an argument that is one of some words. -/
def word? (words : List String) : Reader (Option String) := do
  match (← get).args with
  | a :: rest =>
    match words.find? fun w => w.toList = a with
    | some w => do
      set (⟨rest, a⟩ : Rest)
      pure (some w)
    | none => pure none
  | [] => pure none

/-- Takes the next argument, which must be there. -/
def argument : Reader Text := do
  let s ← get
  match s.args with
  | a :: rest => do
    set (⟨rest, a⟩ : Rest)
    pure a
  | [] => wrong ("missing argument after ".toList ++ enclosed s.before)

/-- What a pattern matches at the front of a text: the first group, or how long the match is. -/
def matched (t pattern : Text) : Reader Value := do
  match Regex.ofText ⟨false, false⟩ pattern with
  | .error e => fail e.toList
  | .ok (r, groups) =>
    let u : Regex.Subject := ⟨t.toArray, false, false⟩
    match Regex.matchAt u r 0, groups with
    | some (j, _), 0 => pure (.number j)
    | some (_, gs), _ =>
      match gs.find? (·.1 = 1) with
      | some (_, a, b) => pure (.text (u.slice a b))
      | none => pure (.text [])
    | none, 0 => pure (.number 0)
    | none, _ => pure (.text [])

def calculated (operator : String) (a b : Value) : Reader Value := do
  match a.toNumber?, b.toNumber? with
  | some m, some n =>
    match operator with
    | "+" => pure (.number (m + n))
    | "-" => pure (.number (m - n))
    | "*" => pure (.number (m * n))
    | operator =>
      if n = 0 then fail "division by zero".toList
      else if operator = "/" then pure (.number (Int.tdiv m n))
      else pure (.number (Int.tmod m n))
  | _, _ => fail "non-integer argument".toList

def compared (operator : String) (a b : Value) : Value :=
  let order : Ordering := match Value.number? a.text', Value.number? b.text' with
    | some m, some n => compare m n
    | _, _ => compare (String.ofList a.text') (String.ofList b.text')
  let holds : Bool := match operator with
    | "<" => order = .lt
    | "<=" => order ≠ .gt
    | ">" => order = .gt
    | ">=" => order ≠ .lt
    | "!=" => order ≠ .eq
    | _ => order = .eq
  .number (if holds then 1 else 0)

/-- The operators by how loosely they bind. -/
def operators : List (List String) :=
  [["|"], ["&"], ["<", "<=", "=", "==", "!=", ">=", ">"], ["+", "-"], ["*", "/", "%"], [":"]]

/-- What two operands make; where nothing counts, the first one stands for both. -/
def combined (counts : Bool) (operator : String) (a b : Value) : Reader Value := do
  match operator with
  | "|" => pure (if !a.isNull then a else if b.isNull then .number 0 else b)
  | "&" => pure (if a.isNull || b.isNull then .number 0 else a)
  | operator =>
    if !counts then pure a
    else match operator with
      | ":" => matched a.text' b.text'
      | "+" | "-" | "*" | "/" | "%" => calculated operator a b
      | _ => pure (compared operator a b)

mutual

/-- Reads operands of a level and what follows them, as many as are allowed. -/
def level : Nat → Nat → Bool → Reader Value
  | 0, _, _ => wrong []
  | n + 1, k, counts => do
    match operators[k]? with
    | none => single n counts
    | some _ => do
      let a ← level n (k + 1) counts
      chain n k counts a

/-- Reads operators of a level and their second operands. -/
def chain : Nat → Nat → Bool → Value → Reader Value
  | 0, _, _, a => pure a
  | n + 1, k, counts, a => do
    match ← word? (operators.getD k []) with
    | none => pure a
    | some operator => do
      let needed : Bool := counts &&
        (match operator with
          | "|" => a.isNull
          | "&" => !a.isNull
          | _ => true)
      let b ← level n (k + 1) needed
      chain n k counts (← combined needed operator a b)

/-- Reads an operand. -/
def single : Nat → Bool → Reader Value
  | 0, _ => wrong []
  | n + 1, counts => do
    let text : Reader Text := do return (← single n counts).text'
    match ← word? ["+", "length", "match", "index", "substr", "("] with
    | some "+" => return .text (← argument)
    | some "length" => return .number (← text).length
    | some "match" => do
      let t ← text
      let pattern ← text
      if counts then matched t pattern else pure (.text t)
    | some "index" => do
      let t ← text
      let cs ← text
      let i := t.findIdx fun c => cs.any (· = c)
      pure (.number (if i < t.length then i + 1 else 0))
    | some "substr" => do
      let t ← text
      let start ← single n counts
      let size ← single n counts
      match start.toNumber?, size.toNumber? with
      | some a, some k =>
        pure (.text (if a ≤ 0 || k ≤ 0 then [] else (t.drop (a.toNat - 1)).take k.toNat))
      | _, _ => pure (.text [])
    | some _ => do
      let v ← level n 0 counts
      let s ← get
      match s.args with
      | [] => wrong ("expecting ')' after ".toList ++ enclosed s.before)
      | a :: rest => do
        if a ≠ [')'] then wrong ("expecting ')' instead of ".toList ++ enclosed a)
        set (⟨rest, a⟩ : Rest)
        pure v
    | none => do
      let t ← argument
      if t = [')'] then wrong "unexpected ')'".toList else pure (.text t)

end

end Reader

end Expression

open Expression in
def expr (args : List Text) : Running Nat := do
  let o : Options := ⟨"expr", "", "", [], 2⟩
  let args := if args.head? = some ['-', '-'] then args.tail else args
  if args.isEmpty then o.misused "missing operand".toList
  match (Reader.level (16 * args.length + 16) 0 true).run ⟨args, []⟩ with
  | .error e => refuse "expr" 2 e
  | .ok (_, ⟨a :: _, _⟩) =>
    refuse "expr" 2 ("syntax error: unexpected argument ".toList ++ enclosed a)
  | .ok (v, _) => do
    out (v.text' ++ ['\n'])
    pure (if v.isNull then 1 else 0)

end Stencil.Shell.Utility
