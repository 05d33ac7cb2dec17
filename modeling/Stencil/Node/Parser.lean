import Stencil.Construct
import Stencil.Delimiters
import Stencil.Node
import Stencil.Text.Blank
import Stencil.Token

/-! Reading tokens as a program. The reader takes one token at a time; what is not finished lies
on a stack of levels, one for each argument or parameter value that is open. -/
namespace Stencil

/-- Why tokens do not make up a program. -/
inductive ParseCause where
  /-- No statement begins with such a token. -/
  | unexpected (found : TokenKind)
  /-- Another token is needed; none was found at the end. -/
  | expected (wanted : TokenKind) (found : Option TokenKind)
  | argumentCount (command : Text) (wanted : Arity) (found : Nat)
  | parameterCount (command : Text) (found : Nat)
  /-- A match holds something besides cases. -/
  | invalidArm (command : Text)
  deriving DecidableEq, Repr

def ParseCause.message : ParseCause → String
  | .unexpected found => s!"unexpected {found.describe}"
  | .expected wanted none => s!"expected {wanted.describe}, got end of input"
  | .expected wanted (some found) => s!"expected {wanted.describe}, got {found.describe}"
  | .argumentCount command wanted found =>
    s!"expected {wanted.describe} arguments but got {found} in function \\{command.str}"
  | .parameterCount command found =>
    s!"expected 0 parameters but got {found} in function \\{command.str}"
  | .invalidArm command => s!"only \\case may appear inside \\{command.str}"

/-- A place in a text of no known file. -/
def Position.here (p : Position) : Location := ⟨p, none⟩

/-- A command that is still being read. -/
structure Opening where
  construct : Option Construct
  name : Text
  position : Position
  params : Option (Params Node)
  args : List Node

namespace Opening

/-- Leading arguments that are read as expressions. -/
def insistent (o : Opening) : Nat :=
  match o.construct with
  | some c => if isInsistent o.name then c.insistentArguments else 0
  | none => 0

def addArgument (o : Opening) (arg : Node) : Opening := { o with args := o.args ++ [arg] }

def fail {α : Type} (o : Opening) (cause : ParseCause) : Except (Fault ParseCause) α :=
  .error ⟨cause, o.position⟩

/-- Refuses parameters. -/
def noParams (o : Opening) : Except (Fault ParseCause) Unit :=
  match o.params.elim 0 (·.entries.length) with
  | 0 => pure ()
  | n => o.fail (.parameterCount o.name n)

/-- The cases in the body of a match. Blanks and comments may stand between them. -/
def arms (o : Opening) (body : Node) : Except (Fault ParseCause) (List Node) :=
  match body with
  | .mk (.group statements) _ => do
    let kept ← statements.mapM fun
      | n@(.mk (.case _ _) _) => pure [n]
      | .mk (.comment _) _ => pure []
      | .mk form location =>
        match form with
        | .raw text =>
          if text.blank then pure [] else .error ⟨.invalidArm o.name, location.position⟩
        | _ => .error ⟨.invalidArm o.name, location.position⟩
    pure kept.flatten
  | .mk _ location => .error ⟨.invalidArm o.name, location.position⟩

/-- What a construct makes of its arguments. Their number is judged first, then the parameters. -/
def form (o : Opening) (c : Construct) : Except (Fault ParseCause) (Form Node) :=
  match c, o.args with
  | .define, [name, body] => pure (.define name (o.params.getD .empty) body)
  | .branch, [condition, yes] => do o.noParams; pure (.branch condition yes none)
  | .branch, [condition, yes, no] => do o.noParams; pure (.branch condition yes (some no))
  | .loop, [first, condition, next, body] => do
    o.noParams; pure (.loop first condition next body)
  | .url, [target] => do o.noParams; pure (.url target)
  | .file, [target] => do o.noParams; pure (.file target)
  | .exec, [command] => do o.noParams; pure (.exec command)
  | .use, [target] => pure (.use target none o.params)
  | .use, [target, hash] => pure (.use target (some hash) o.params)
  | .choice, [subject, body] => do o.noParams; pure (.choice subject (← o.arms body))
  | .case, [value, body] => do o.noParams; pure (.case value body)
  | c, args => o.fail (.argumentCount o.name c.arity args.length)

/-- The node of a command that is read to its end. -/
def node (o : Opening) : Except (Fault ParseCause) Node :=
  match o.construct with
  | none => pure (.mk (.call o.name o.params o.args) o.position.here)
  | some c => do pure (.mk (← o.form c) o.position.here)

end Opening

/-- What a list of statements is, once it is complete. -/
inductive Slot where
  | argument (opened : Position)
  | value (params : Params Node) (key : Text) (assigned : Position)

/-- A list of statements that waits until a part of its last command is read. -/
structure Level where
  before : List Node
  opening : Opening
  slot : Slot

/-- What a group becomes whose tokens are kept as text. -/
inductive Kept where
  | comment (position : Position)
  | source (position : Position)
  | argument (opening : Opening)

/-- What the next token belongs to. -/
inductive Mode where
  | statements
  /-- An escape, which a name must follow. -/
  | name (position : Position)
  /-- The name of a source, which an argument must follow. -/
  | source (position : Position)
  /-- The name of a comment, which is a group or the rest of a line. -/
  | comment (position : Position)
  /-- The rest of a line, with the groups and lists open in it. -/
  | line (position : Position) (depth : Nat) (text : Text)
  /-- A group that is kept as text, with the groups open inside it. -/
  | kept (opened : Position) (depth : Nat) (text : Text) (as : Kept)
  /-- A command name, which parameters may follow. -/
  | named (opening : Opening)
  /-- A command that only arguments may follow. -/
  | arguments (opening : Opening)
  | key (opening : Opening) (params : Params Node)
  /-- A key, which a value may follow. -/
  | keyed (opening : Opening) (params : Params Node) (key : Text)

/-- A program that is being read: the levels that wait, the statements of the innermost one, what
the next token belongs to, and where the token before it stands. -/
structure Reading where
  levels : List Level
  body : List Node
  mode : Mode
  last : Position

namespace Reading

def initial : Reading := ⟨[], [], .statements, .start⟩

variable (d : Delimiters) (r : Reading)

def refuse {α : Type} (t : Token) (cause : ParseCause) : Except (Fault ParseCause) α :=
  .error ⟨cause, t.position⟩

def refuseFor {α : Type} (t : Token) (wanted : TokenKind) : Except (Fault ParseCause) α :=
  refuse t (.expected wanted (some t.kind))

/-- Adds a statement. -/
def add (n : Node) : Reading := { r with body := r.body ++ [n], mode := .statements }

/-- The source of an expression token without its marks. -/
def sourceOf (t : Text) : Text := (t.dropFront d.evalStart).dropBack d.evalEnd

/-- Literal text with doubled escapes undone. -/
def unescape (t : Text) : Text := t.replace (d.escape ++ d.escape) d.escape

def rawNode (t : Text) (p : Position) : Node := .mk (.raw (unescape d t)) p.here

def commentNode (t : Text) (p : Position) : Node := .mk (.comment t) p.here

/-- Goes on after an entry of a parameter list. -/
def afterEntry (o : Opening) (params : Params Node) (t : Token) :
    Except (Fault ParseCause) Reading :=
  match t.kind with
  | .paramSep => pure { r with mode := .key o params }
  | .paramEnd => pure { r with mode := .arguments { o with params := some params } }
  | _ => refuseFor t .paramEnd

/-- Goes on after a token that begins no statement, which must end the list of statements. -/
def close (t : Token) : Except (Fault ParseCause) Reading :=
  match r.levels with
  | [] => refuse t (.unexpected t.kind)
  | ⟨before, o, .argument opened⟩ :: levels =>
    if t.kind = .argEnd then
      pure ⟨levels, before, .arguments (o.addArgument (.mk (.group r.body) opened.here)), r.last⟩
    else refuseFor t .argEnd
  | ⟨before, o, .value params key assigned⟩ :: levels =>
    afterEntry ⟨levels, before, .statements, r.last⟩ o
      (params.insert key (some (.mk (.group r.body) assigned.here))) t

/-- Takes a token where a statement may begin. -/
def statement (t : Token) : Except (Fault ParseCause) Reading :=
  match t.kind with
  | .raw => pure (r.add (rawNode d t.text t.position))
  | .expression => pure (r.add (.mk (.expression (sourceOf d t.text)) t.position.here))
  | .escape => pure { r with mode := .name t.position }
  | _ => r.close t

/-- Takes a token of a line comment. The comment ends before a line break outside all groups and
lists, and before the end of what holds it. -/
def commentLine (p : Position) (depth : Nat) (text : Text) (t : Token) :
    Except (Fault ParseCause) Reading :=
  let goOn (depth : Nat) : Except (Fault ParseCause) Reading :=
    pure { r with mode := .line p depth (text ++ t.text) }
  match t.kind, depth with
  | .argEnd, 0 | .paramEnd, 0 | .paramSep, 0 => (r.add (commentNode text p)).close t
  | .argStart, n | .paramStart, n => goOn (n + 1)
  | .argEnd, n + 1 | .paramEnd, n + 1 => goOn n
  | .raw, 0 =>
    match t.text.cutAt? '\n' with
    | none => goOn 0
    | some (line, rest) =>
      let p' := t.position.after line
      pure { (r.add (commentNode (text ++ line) p)).add (rawNode d ('\n' :: rest) p') with
        last := p' }
  | _, n => goOn n

/-- Takes a token after a command or one of its arguments. -/
def argument (o : Opening) (t : Token) : Except (Fault ParseCause) Reading :=
  if t.kind = .argStart then
    if o.args.length < o.insistent then
      pure { r with mode := .kept t.position 0 [] (.argument o) }
    else pure ⟨⟨r.body, o, .argument t.position⟩ :: r.levels, [], .statements, r.last⟩
  else do (r.add (← o.node)).statement d t

/-- Goes on after a group that is kept as text. -/
def keep (opened : Position) (text : Text) : Kept → Reading
  | .comment p => r.add (commentNode text p)
  | .source p => r.add (.mk (.expression text) p.here)
  | .argument o =>
    { r with mode := .arguments (o.addArgument (.mk (.expression text) opened.here)) }

/-- Takes the next token. -/
def take (t : Token) : Except (Fault ParseCause) Reading :=
  let r' : Reading := { r with last := t.position }
  match r.mode with
  | .statements => r'.statement d t
  | .name p =>
    if t.kind = .commandName then
      match Heading.ofName t.text with
      | .comment => pure { r' with mode := .comment p }
      | .source => pure { r' with mode := .source p }
      | .construct c => pure { r' with mode := .named ⟨some c, t.text, p, none, []⟩ }
      | .call => pure { r' with mode := .named ⟨none, t.text, p, none, []⟩ }
    else refuseFor t .commandName
  | .source p =>
    if t.kind = .argStart then pure { r' with mode := .kept t.position 0 [] (.source p) }
    else refuseFor t .argStart
  | .comment p =>
    if t.kind = .argStart then pure { r' with mode := .kept t.position 0 [] (.comment p) }
    else r'.commentLine d p 0 [] t
  | .line p depth text => r'.commentLine d p depth text t
  | .kept opened depth text as =>
    match t.kind, depth with
    | .argEnd, 0 => pure (r'.keep opened text as)
    | .argEnd, n + 1 => pure { r' with mode := .kept opened n (text ++ t.text) as }
    | .argStart, n => pure { r' with mode := .kept opened (n + 1) (text ++ t.text) as }
    | _, n => pure { r' with mode := .kept opened n (text ++ t.text) as }
  | .named o =>
    if t.kind = .paramStart then pure { r' with mode := .key o ⟨[], t.position.here⟩ }
    else r'.argument d o t
  | .arguments o => r'.argument d o t
  | .key o params =>
    match t.kind with
    | .paramEnd => pure { r' with mode := .arguments { o with params := some params } }
    | .paramKey => pure { r' with mode := .keyed o params t.text }
    | _ => refuseFor t .paramKey
  | .keyed o params key =>
    if t.kind = .paramAssign then
      pure ⟨⟨r.body, o, .value params key t.position⟩ :: r.levels, [], .statements, t.position⟩
    else r'.afterEntry o (params.insert key none) t

/-- What is still needed where the tokens end, if anything. -/
def refuseEnd {α : Type} (wanted : TokenKind) : Except (Fault ParseCause) α :=
  .error ⟨.expected wanted none, r.last⟩

/-- The statements, if no level waits. -/
def complete : Except (Fault ParseCause) (List Node) :=
  match r.levels with
  | [] => pure r.body
  | ⟨_, _, .argument _⟩ :: _ => r.refuseEnd .argEnd
  | ⟨_, _, .value _ _ _⟩ :: _ => r.refuseEnd .paramEnd

/-- The program, if the tokens may end here. -/
def finish : Except (Fault ParseCause) (List Node) :=
  match r.mode with
  | .statements => r.complete
  | .name _ => r.refuseEnd .commandName
  | .source _ => r.refuseEnd .argStart
  | .comment p => (r.add (commentNode [] p)).complete
  | .line p _ text => (r.add (commentNode text p)).complete
  | .kept opened _ _ _ => .error ⟨.expected .argEnd none, opened⟩
  | .named o | .arguments o => do (r.add (← o.node)).complete
  | .key _ _ => r.refuseEnd .paramKey
  | .keyed _ _ _ => r.refuseEnd .paramEnd

end Reading

/-- The program that tokens make up: its statements in order. -/
def parse (d : Delimiters) (tokens : List Token) : Except (Fault ParseCause) (List Node) := do
  (← tokens.foldlM (·.take d) Reading.initial).finish

end Stencil
