import Stencil.Shell.Arithmetic

/-! Conditions that are asked about texts, numbers and files. -/
namespace Stencil.Shell.Condition

/-- What a text can be in a condition. -/
inductive Sign where
  | unary (letter : Char)
  | binary (operator : String)
  | negation
  | both
  | either
  | opening
  | closing
  | operand
  | ending
  deriving DecidableEq, Repr

def unaryLetters : Text := "rwxefdcbpugkstznhOGLS".toList

def binaryOperators : List String :=
  ["=", "!=", "<", ">", "-eq", "-ne", "-ge", "-gt", "-le", "-lt", "-nt", "-ot", "-ef"]

/-- The operator that a text is, if it is one. -/
def operator? (t : Text) : Option Sign :=
  match t with
  | ['!'] => some .negation
  | ['('] => some .opening
  | [')'] => some .closing
  | ['-', 'a'] => some .both
  | ['-', 'o'] => some .either
  | ['-', c] => if unaryLetters.any (· = c) then some (.unary c) else none
  | t =>
    if binaryOperators.contains (String.ofList t) then some (.binary (String.ofList t)) else none

def isBinary : Option Sign → Bool
  | some (.binary _) => true
  | _ => false

open Running

/-- Gives a condition up that is not well formed. -/
def refuse {α : Type} (operator reason : String) : Running α :=
  abort ((if operator.isEmpty then "" else operator ++ ": ") ++ reason).toList

/-- The whole number that a text writes. -/
def number (t : Text) : Running Int :=
  match Number.read? false t with
  | some n => pure n
  | none => abort ("Illegal number: ".toList ++ t)

/-- Whether a file is as a letter says. -/
def file (letter : Char) (path : Text) : Running Bool := do
  match letter, ← locate path with
  | c, .null => pure ("ecrwOG".toList.any (· = c))
  | _, .vacant _ | _, .lost _ => pure false
  | 'f', .file _ _ _ => pure true
  | 's', .file _ content _ => pure !content.isEmpty
  | 'x', .file _ _ runs => pure runs
  | c, .file _ _ _ => pure (c = 'e' || c = 'r' || c = 'w' || c = 'O' || c = 'G')
  | c, _ => pure (c ≠ 'f' && "edrwxsOG".toList.any (· = c))

section

variable (args : List Text)

/-- What the text at a place is there. -/
def signAt (i : Nat) : Sign :=
  match args[i]? with
  | none => .ending
  | some t =>
    match operator? t with
    | some (.unary c) =>
      match args[i + 1]?, args[i + 2]? with
      | none, _ => .operand
      | some _, none => .unary c
      | some next, some _ => if isBinary (operator? next) then .operand else .unary c
    | some .opening => if args[i + 1]?.isNone then .operand else .opening
    | some s => s
    | none => .operand

def textAt (i : Nat) : Text := args.getD i []

def unary (letter : Char) (t : Text) : Running Bool :=
  match letter with
  | 'z' => pure t.isEmpty
  | 'n' => pure !t.isEmpty
  | 't' => do
    let _ ← number t
    pure false
  | c => file c t

def binary (operator : String) (a b : Text) : Running Bool :=
  let compared (p : Int → Int → Bool) : Running Bool := do
    let x ← number a
    let y ← number b
    pure (p x y)
  match operator with
  | "=" => pure (a = b)
  | "!=" => pure (a ≠ b)
  | "<" => pure (String.ofList a < String.ofList b)
  | ">" => pure (String.ofList b < String.ofList a)
  | "-eq" => compared fun x y => x = y
  | "-ne" => compared fun x y => x ≠ y
  | "-ge" => compared fun x y => y ≤ x
  | "-gt" => compared fun x y => y < x
  | "-le" => compared fun x y => x ≤ y
  | "-lt" => compared fun x y => x < y
  | "-ef" => do
    let x ← locate a
    let y ← locate b
    match x, y with
    | .file m _ _, .file n _ _ | .folder m, .folder n => pure (m = n)
    | _, _ => pure false
  | _ => pure false

mutual

/-- A condition from a place on, of which the sign there is given, and its last place. -/
def disjunction : Nat → Sign → Nat → Running (Bool × Nat)
  | 0, _, i => pure (false, i)
  | n + 1, s, i => do
    let (a, i) ← conjunction n s i
    if signAt args (i + 1) = .either then do
      let (b, i) ← disjunction n (signAt args (i + 2)) (i + 2)
      pure (a || b, i)
    else pure (a, i)

def conjunction : Nat → Sign → Nat → Running (Bool × Nat)
  | 0, _, i => pure (false, i)
  | n + 1, s, i => do
    let (a, i) ← negated n s i
    if signAt args (i + 1) = .both then do
      let (b, i) ← conjunction n (signAt args (i + 2)) (i + 2)
      pure (a && b, i)
    else pure (a, i)

def negated : Nat → Sign → Nat → Running (Bool × Nat)
  | 0, _, i => pure (false, i)
  | n + 1, .negation, i => do
    let s := signAt args (i + 1)
    let (a, i) ← negated n s (if s = .ending then i else i + 1)
    pure (!a, i)
  | n + 1, s, i => primary n s i

def primary : Nat → Sign → Nat → Running (Bool × Nat)
  | 0, _, i => pure (false, i)
  | _ + 1, .ending, i => pure (false, i)
  | n + 1, .opening, i =>
    let s := signAt args (i + 1)
    if s = .closing then pure (false, i + 1)
    else do
      let (a, i) ← disjunction n s (i + 1)
      if signAt args (i + 1) = .closing then pure (a, i + 1)
      else refuse "" "closing paren expected"
  | _ + 1, .unary c, i =>
    match args[i + 1]? with
    | none => refuse (String.ofList ['-', c]) "argument expected"
    | some t => do return (← unary c t, i + 1)
  | _ + 1, _, i =>
    match signAt args (i + 1) with
    | .binary o =>
      match args[i + 2]? with
      | none => refuse o "argument expected"
      | some b => do return (← binary o (textAt args i) b, i + 2)
    | _ => pure (!(textAt args i).isEmpty, i)

end

/-- Whether a condition from a place on holds, where nothing may follow it. -/
def whole (s : Sign) : Running Bool := do
  let (a, i) ← disjunction args (4 * args.length + 8) s 0
  match args[i]?, args[i + 1]? with
  | some t, some _ => refuse (String.ofList t) "unexpected operator"
  | _, _ => pure a

end

/-- Whether the condition that texts write holds. Few texts are read by their number. -/
def holds : Nat → List Text → Running Bool
  | 0, _ => pure false
  | n + 1, args =>
    match args with
    | [] => pure false
    | [_, o, _] =>
      if isBinary (operator? o) then whole args .operand else general n args
    | args => general n args
where
  general (n : Nat) (args : List Text) : Running Bool :=
    if args.length = 3 || args.length = 4 then
      if args.head? = some ['('] && args.getLast? = some [')'] then
        let inner := args.tail.dropLast
        whole inner (signAt inner 0)
      else if args.head? = some ['!'] then do return !(← holds n args.tail)
      else whole args (signAt args 0)
    else whole args (signAt args 0)

end Stencil.Shell.Condition
