import Stencil.Shell.State

/-! Arithmetic of the shell: whole numbers of 64 bits, with variables that can be assigned. -/
namespace Stencil.Shell

namespace Number

/-- What a digit of up to sixteen is worth. -/
def digit? (c : Char) : Option Nat :=
  if c.isDigit then some (c.toNat - 48)
  else if 'a' ≤ c && c ≤ 'f' then some (c.toNat - 87)
  else if 'A' ≤ c && c ≤ 'F' then some (c.toNat - 55)
  else none

/-- The number that the digits of a base at the front write, and how many they are. -/
def digitsOf (base : Nat) (t : Text) : Nat × Nat :=
  let ds := t.takeWhile fun c => (digit? c).any (· < base)
  (ds.foldl (fun n c => base * n + (digit? c).getD 0) 0, ds.length)

/-- A number without a sign at the front, in the base that its beginning says if no other is
given: its value and the text after it. -/
def unsigned? (anyBase : Bool) (t : Text) : Option (Nat × Text) :=
  let inBase (base : Nat) (t : Text) : Option (Nat × Text) :=
    let (n, size) := digitsOf base t
    if size = 0 then none else some (n, t.drop size)
  if !anyBase then inBase 10 t
  else match t with
    | '0' :: x :: r =>
      if x = 'x' || x = 'X' then (inBase 16 r).or (some (0, x :: r)) else inBase 8 t
    | t => inBase 10 t

def isBlank (c : Char) : Bool := c = ' ' || ('\t' ≤ c && c ≤ '\x0d')

/-- A number at the front after blanks and a sign, and the text after it. -/
def signed? (anyBase : Bool) (t : Text) : Option (Int × Text) :=
  match t.dropWhile isBlank with
  | '-' :: r => (unsigned? anyBase r).map fun (n, rest) => (-(n : Int), rest)
  | '+' :: r => (unsigned? anyBase r).map fun (n, rest) => ((n : Int), rest)
  | r => (unsigned? anyBase r).map fun (n, rest) => ((n : Int), rest)

/-- The number that a whole text writes. -/
def read? (anyBase : Bool) (t : Text) : Option Int :=
  match signed? anyBase t with
  | some (n, rest) =>
    if rest.all isBlank && -9223372036854775808 ≤ n && n ≤ 9223372036854775807 then some n
    else none
  | none => none

def text (n : Int) : Text := (toString n).toList

end Number

/-- An expression. -/
inductive Term where
  | number (n : Int64)
  | variable (name : Text)
  | unary (operator : Char) (t : Term)
  | binary (operator : String) (a b : Term)
  | choice (condition a b : Term)
  | assign (name : Text) (operator : String) (t : Term)
  deriving Repr

namespace Term

inductive Token where
  | number (n : Int64)
  | name (t : Text)
  | operator (s : String)
  | bad
  deriving DecidableEq, Repr

/-- Operators, of which the longest that fits is read. -/
def operators : List String :=
  ["<<=", ">>=", "<<", ">>", "<=", ">=", "==", "!=", "&&", "||", "+=", "-=", "*=", "/=", "%=", "&=",
    "|=", "^=", "+", "-", "*", "/", "%", "<", ">", "!", "~", "&", "|", "^", "=", "?", ":", "(", ")"]

/-- The tokens of an expression, as many as are allowed. -/
def tokens : Nat → Text → List Token
  | 0, _ | _, [] => []
  | n + 1, c :: r =>
    if c = ' ' || c = '\t' || c = '\n' then tokens n r
    else if isNameStart c then
      .name ((c :: r).takeWhile isNamePart) :: tokens n ((c :: r).dropWhile isNamePart)
    else match Number.unsigned? true (c :: r) with
      | some (v, rest) => .number (Int64.ofInt (min v 9223372036854775807)) :: tokens n rest
      | none =>
        match operators.find? fun s => s.toList.isPrefixOf (c :: r) with
        | some s => .operator s :: tokens n ((c :: r).drop s.length)
        | none => [.bad]

/-- How tightly an operator between two expressions binds. -/
def level : String → Option Nat
  | "||" => some 1
  | "&&" => some 2
  | "|" => some 3
  | "^" => some 4
  | "&" => some 5
  | "==" | "!=" => some 6
  | "<" | "<=" | ">" | ">=" => some 7
  | "<<" | ">>" => some 8
  | "+" | "-" => some 9
  | "*" | "/" | "%" => some 10
  | _ => none

/-- The operator that an assignment applies first, if the text is one of an assignment. -/
def assignment? : String → Option String
  | "=" => some ""
  | "+=" => some "+"
  | "-=" => some "-"
  | "*=" => some "*"
  | "/=" => some "/"
  | "%=" => some "%"
  | "&=" => some "&"
  | "|=" => some "|"
  | "^=" => some "^"
  | "<<=" => some "<<"
  | ">>=" => some ">>"
  | _ => none

abbrev Reading := Except String (Term × List Token)

mutual

def assigned : Nat → List Token → Reading
  | 0, _ => .error "expecting primary"
  | n + 1, .name x :: .operator s :: ts =>
    match assignment? s with
    | some s => do
      let (t, rest) ← assigned n ts
      pure (.assign x s t, rest)
    | none => chosen n (.name x :: .operator s :: ts)
  | n + 1, ts => chosen n ts

def chosen : Nat → List Token → Reading
  | 0, _ => .error "expecting primary"
  | n + 1, ts => do
    match ← chained n 1 ts with
    | (condition, .operator "?" :: ts) => do
      let (a, rest) ← assigned n ts
      match rest with
      | .operator ":" :: ts => do
        let (b, rest) ← chosen n ts
        pure (.choice condition a b, rest)
      | _ => .error "expecting ':'"
    | r => pure r

/-- Expressions joined by operators of a level or a higher one. -/
def chained : Nat → Nat → List Token → Reading
  | 0, _, _ => .error "expecting primary"
  | n + 1, l, ts => do
    let (a, rest) ← primary n ts
    chainedFrom n l a rest

def chainedFrom : Nat → Nat → Term → List Token → Reading
  | 0, _, _, _ => .error "expecting primary"
  | n + 1, l, a, .operator s :: ts =>
    match level s with
    | some k =>
      if k < l then pure (a, .operator s :: ts)
      else do
        let (b, rest) ← chained n (k + 1) ts
        chainedFrom n l (.binary s a b) rest
    | none => pure (a, .operator s :: ts)
  | _ + 1, _, a, ts => pure (a, ts)

def primary : Nat → List Token → Reading
  | 0, _ => .error "expecting primary"
  | _ + 1, .number v :: ts => pure (.number v, ts)
  | _ + 1, .name x :: ts => pure (.variable x, ts)
  | n + 1, .operator "(" :: ts => do
    match ← assigned n ts with
    | (t, .operator ")" :: rest) => pure (t, rest)
    | _ => .error "expecting ')'"
  | n + 1, .operator s :: ts =>
    if s = "-" || s = "+" || s = "!" || s = "~" then do
      let (t, rest) ← primary n ts
      pure (.unary (s.toList.headD ' ') t, rest)
    else .error "expecting primary"
  | _ + 1, _ => .error "expecting primary"

end

/-- The expression that a text writes. -/
def ofText (t : Text) : Except String Term :=
  let ts := tokens t.length t
  match assigned (8 * ts.length + 16) ts with
  | .ok (term, []) => .ok term
  | .ok _ => .error "expecting EOF"
  | .error e => .error e

def ofBool (b : Bool) : Int64 := if b then 1 else 0

/-- What an operator makes of two numbers, unless it divides by zero. -/
def combine? (operator : String) (a b : Int64) : Option Int64 :=
  match operator with
  | "+" => some (a + b)
  | "-" => some (a - b)
  | "*" => some (a * b)
  | "/" => if b = 0 then none else some (a / b)
  | "%" => if b = 0 then none else some (a % b)
  | "<<" => some (a <<< b)
  | ">>" => some (a >>> b)
  | "<" => some (ofBool (a < b))
  | "<=" => some (ofBool (a ≤ b))
  | ">" => some (ofBool (b < a))
  | ">=" => some (ofBool (b ≤ a))
  | "==" => some (ofBool (a = b))
  | "!=" => some (ofBool (a ≠ b))
  | "&" => some (a &&& b)
  | "|" => some (a ||| b)
  | "^" => some (a ^^^ b)
  | _ => some b

open Running

/-- The number that the value of a variable writes; no value writes zero. -/
def lookUp (name : Text) : Running Int64 := do
  let value := (← value? name).getD []
  if value.all Number.isBlank then pure 0
  else match Number.read? true value with
    | some n => pure (Int64.ofInt n)
    | none => abort ("Illegal number: ".toList ++ value)

/-- The value of an expression, whose text is shown in complaints. -/
def eval (shown : Text) : Term → Running Int64
  | number n => pure n
  | .variable name => lookUp name
  | unary operator t => do
    let v ← eval shown t
    pure (match operator with
      | '-' => -v
      | '!' => ofBool (v = 0)
      | '~' => ~~~v
      | _ => v)
  | binary "||" a b => do
    if (← eval shown a) ≠ 0 then pure 1 else pure (ofBool ((← eval shown b) ≠ 0))
  | binary "&&" a b => do
    if (← eval shown a) = 0 then pure 0 else pure (ofBool ((← eval shown b) ≠ 0))
  | binary operator a b => do
    let x ← eval shown a
    let y ← eval shown b
    applied operator x y
  | choice c a b => do if (← eval shown c) ≠ 0 then eval shown a else eval shown b
  | assign name operator t => do
    let y ← eval shown t
    let v ← if operator = "" then pure y else do applied operator (← lookUp name) y
    Running.assign name (Number.text v.toInt)
    pure v
where
  applied (operator : String) (x y : Int64) : Running Int64 :=
    match combine? operator x y with
    | some v => pure v
    | none => abort ("arithmetic expression: division by zero: \"".toList ++ shown ++ ['"'])

end Term

/-- The text of the value of an expression. -/
def calculated (t : Text) : Running Text := do
  match Term.ofText t with
  | .ok term => return Number.text (← term.eval t).toInt
  | .error e =>
    Running.abort ("arithmetic expression: ".toList ++ e.toList ++ ": \"".toList ++ t ++ ['"'])

end Stencil.Shell
