import Stencil.Node.Parser

/-! A reader that goes over tokens with a cursor and calls itself for what is nested. It takes much
for granted, as that there is a token at the cursor when one is taken. Here every such step is
checked, and a reader that is wrong about it halts with a breach. -/
namespace Stencil

/-- What a reader was wrong about. -/
inductive Breach where
  /-- A token is taken where the tokens are at their end. -/
  | pastEnd
  /-- A depth of zero is lowered. -/
  | belowZero
  /-- An argument is taken where none is left. -/
  | noArgument
  deriving DecidableEq, Repr

/-- Why a reader has no result. -/
inductive Halt where
  | refused (fault : Fault ParseCause)
  | breached (b : Breach)
  /-- The steps allowed are used up. -/
  | exhausted
  deriving DecidableEq, Repr

/-- Tokens and the place among them that a reader has come to. -/
structure Cursor where
  tokens : List Token
  index : Nat

namespace Cursor

variable (c : Cursor)

/-- The token at the cursor. -/
def head? : Option Token := c.tokens[c.index]?

def isAt (kind : TokenKind) : Bool := c.head?.any (·.kind = kind)

/-- The cursor one token later. -/
def next : Cursor := { c with index := c.index + 1 }

/-- The cursor with another token in the place of the one at it. -/
def replace (t : Token) : Cursor := { c with tokens := c.tokens.set c.index t }

/-- Where the last of all tokens stands. -/
def final : Position := (c.tokens.getLast?.map Token.position).getD .start

end Cursor

/-- A reader that checks what it takes for granted. -/
abbrev Guarded := StateT Cursor (Except Halt)

namespace Guarded

def refuse {α : Type} (cause : ParseCause) (p : Position) : Guarded α :=
  throw (.refused ⟨cause, p⟩)

/-- A result that does not depend on tokens. -/
def judged {α : Type} : Except (Fault ParseCause) α → Guarded α
  | .ok a => pure a
  | .error fault => throw (.refused fault)

def peek? : Guarded (Option Token) := do return (← get).head?

def isAt (kind : TokenKind) : Guarded Bool := do return (← get).isAt kind

/-- Takes the token at the cursor, whatever it is. -/
def bump : Guarded Token := do
  match ← peek? with
  | some t =>
    modify Cursor.next
    pure t
  | none => throw (.breached .pastEnd)

/-- Takes a token of the kind that must be here. -/
def expect (kind : TokenKind) : Guarded Token := do
  match ← peek? with
  | some t => if t.kind = kind then bump else refuse (.expected kind (some t.kind)) t.position
  | none => refuse (.expected kind none) (← get).final

def lower : Nat → Guarded Nat
  | 0 => throw (.breached .belowZero)
  | depth + 1 => pure depth

def takeArgument : List Node → Guarded (Node × List Node)
  | [] => throw (.breached .noArgument)
  | arg :: args => pure (arg, args)

/-- The text up to the end of an open group, with `depth` groups open in it. -/
def group (opened : Position) : Nat → Nat → Text → Guarded Text
  | 0, _, _ => throw .exhausted
  | steps + 1, depth, text => do
    match ← peek? with
    | none => refuse (.expected .argEnd none) opened
    | some t =>
      match t.kind with
      | .argStart => group opened steps (depth + 1) (text ++ (← bump).text)
      | .argEnd =>
        let depth ← lower depth
        let t ← bump
        if depth = 0 then pure text else group opened steps depth (text ++ t.text)
      | _ => group opened steps depth (text ++ (← bump).text)

/-- The rest of a line as text. Of a token that goes beyond the line, what is beyond it stays. -/
def line : Nat → Nat → Text → Guarded Text
  | 0, _, _ => throw .exhausted
  | steps + 1, depth, text => do
    match ← peek? with
    | none => pure text
    | some t =>
      if depth = 0 && (t.kind = .argEnd || t.kind = .paramEnd || t.kind = .paramSep) then pure text
      else match t.kind with
        | .argStart | .paramStart => line steps (depth + 1) (text ++ (← bump).text)
        | .argEnd | .paramEnd => do
          let depth ← lower depth
          line steps depth (text ++ (← bump).text)
        | .raw =>
          match (if depth = 0 then t.text.cutAt? '\n' else none) with
          | some (before, after) => do
            modify (·.replace ⟨.raw, '\n' :: after, t.position.after before⟩)
            pure (text ++ before)
          | none => line steps depth (text ++ (← bump).text)
        | _ => line steps depth (text ++ (← bump).text)

section

-- Below, the statements of a part of a command are read by `inner`.
variable (inner : Guarded (List Node))

/-- Reads arguments, of which the leading ones are kept as text. -/
def arguments (insistent : Nat) : Nat → List Node → Guarded (List Node)
  | 0, _ => throw .exhausted
  | steps + 1, args => do
    if ← isAt .argStart then
      let opened ← bump
      if args.length < insistent then
        let source ← group opened.position steps 1 []
        arguments insistent steps (args ++ [.mk (.expression source) opened.position.here])
      else
        let body ← inner
        let _ ← expect .argEnd
        arguments insistent steps (args ++ [.mk (.group body) opened.position.here])
    else pure args

/-- Reads what follows a parameter key. -/
def value? : Guarded (Option Node) := do
  if ← isAt .paramAssign then
    let assigned ← bump
    let body ← inner
    pure (some (.mk (.group body) assigned.position.here))
  else pure none

/-- Reads the entries of a list of parameters and its end. -/
def entries : Nat → Params Node → Guarded (Params Node)
  | 0, _ => throw .exhausted
  | steps + 1, params => do
    if ← isAt .paramEnd then
      let _ ← expect .paramEnd
      pure params
    else
      let key ← expect .paramKey
      let value ← value? inner
      let params := params.insert key.text value
      if ← isAt .paramSep then
        let _ ← bump
        entries steps params
      else
        let _ ← expect .paramEnd
        pure params

/-- Reads a list of parameters, if there is one. -/
def params? (steps : Nat) : Guarded (Option (Params Node)) := do
  if ← isAt .paramStart then
    let opened ← expect .paramStart
    return some (← entries inner steps ⟨[], opened.position.here⟩)
  else pure none

/-- What a construct makes of its arguments, which are taken one by one. -/
def form (o : Opening) : Construct → Guarded (Form Node)
  | .define => do
    let (name, args) ← takeArgument o.args
    let (body, _) ← takeArgument args
    pure (.define name (o.params.getD .empty) body)
  | .branch => do
    let (condition, args) ← takeArgument o.args
    let (yes, args) ← takeArgument args
    pure (.branch condition yes args.head?)
  | .loop => do
    let (first, args) ← takeArgument o.args
    let (condition, args) ← takeArgument args
    let (next, args) ← takeArgument args
    let (body, _) ← takeArgument args
    pure (.loop first condition next body)
  | .url => do
    let (target, _) ← takeArgument o.args
    pure (.url target)
  | .file => do
    let (target, _) ← takeArgument o.args
    pure (.file target)
  | .exec => do
    let (command, _) ← takeArgument o.args
    pure (.exec command)
  | .use => do
    let (target, args) ← takeArgument o.args
    pure (.use target args.head? o.params)
  | .choice => do
    let (subject, args) ← takeArgument o.args
    let (body, _) ← takeArgument args
    return .choice subject (← judged (o.arms body))
  | .case => do
    let (value, args) ← takeArgument o.args
    let (body, _) ← takeArgument args
    pure (.case value body)

/-- Whether a construct refuses parameters. -/
def isBare : Construct → Bool
  | .define | .use => false
  | _ => true

/-- The node of a command that is read to its end; arguments are judged before parameters. -/
def node (o : Opening) : Guarded Node :=
  match o.construct with
  | none => pure (.mk (.call o.name o.params o.args) o.position.here)
  | some c => do
    let count := o.params.elim 0 (·.entries.length)
    if !c.arity.accepts o.args.length then
      refuse (.argumentCount o.name c.arity o.args.length) o.position
    else if isBare c && 0 < count then refuse (.parameterCount o.name count) o.position
    else return .mk (← form o c) o.position.here

/-- Reads the parameters and arguments of a command, and makes its node. -/
def opening (steps : Nat) (o : Opening) : Guarded Node := do
  let params ← params? inner steps
  let args ← arguments inner o.insistent steps []
  node { o with params, args }

def comment (steps : Nat) (p : Position) : Guarded Node := do
  if ← isAt .argStart then
    let opened ← bump
    return Reading.commentNode (← group opened.position steps 1 []) p
  else return Reading.commentNode (← line steps 0 []) p

def source (steps : Nat) (p : Position) : Guarded Node := do
  let opened ← expect .argStart
  return .mk (.expression (← group opened.position steps 1 [])) p.here

/-- Reads on behind the name of a command. -/
def headed (steps : Nat) (p : Position) (name : Text) : Guarded Node :=
  match Heading.ofName name with
  | .comment => comment steps p
  | .source => source steps p
  | .construct c => opening inner steps ⟨some c, name, p, none, []⟩
  | .call => opening inner steps ⟨none, name, p, none, []⟩

def command (steps : Nat) : Guarded Node := do
  let escape ← expect .escape
  let name ← expect .commandName
  headed inner steps escape.position name.text

end

/-- Reads statements up to the first token that begins none, which may stand in a part only. -/
def statements (d : Delimiters) : Nat → Bool → List Node → Guarded (List Node)
  | 0, _, _ => throw .exhausted
  | steps + 1, nested, body => do
    match ← peek? with
    | none => pure body
    | some t =>
      match t.kind with
      | .raw => do
        let t ← bump
        statements d steps nested (body ++ [Reading.rawNode d t.text t.position])
      | .expression => do
        let t ← bump
        statements d steps nested
          (body ++ [.mk (.expression (Reading.sourceOf d t.text)) t.position.here])
      | .escape => do
        let n ← command (statements d steps true []) steps
        statements d steps nested (body ++ [n])
      | kind => if nested then pure body else refuse (.unexpected kind) t.position

/-- Reads the tokens as a program. -/
def program (d : Delimiters) (steps : Nat) (tokens : List Token) : Except Halt (List Node) :=
  (statements d steps false []).run' ⟨tokens, 0⟩

end Guarded
end Stencil
