import Stencil.Host
import Stencil.Journal
import Stencil.Reference
import Stencil.Scopes
import Stencil.Text.Blank

/-! Rendering a program to text. Every visit of a node takes a step, so that the steps allowed
bound how deep visits nest and how often a loop runs. -/
namespace Stencil

/-- The scopes and the journal of a program that is being rendered. -/
structure Session where
  scopes : Scopes
  journal : Journal

/-- A part of rendering, which keeps the session also when it stops. -/
abbrev Rendering := ExceptT Stop (StateM Session)

namespace Rendering

def note (n : Notice) (l : Location) : Rendering Unit :=
  modify fun s => { s with journal := s.journal.note n l }

def call (c : Call) : Rendering Unit := modify fun s => { s with journal := s.journal.call c }

/-- What the host answers now. -/
def answers (host : Host) : Rendering Answers := do return host.answers (← get).journal.calls

def fail {α : Type} (cause : RenderCause) (l : Location) : Rendering α :=
  throw (.failed ⟨[], .render cause, l⟩)

def scopes : Rendering Scopes := do return (← get).scopes

def onScopes (f : Scopes → Scopes) : Rendering Unit :=
  modify fun s => { s with scopes := f s.scopes }

/-- Binds a name in the innermost scope. -/
def define (name : Text) (b : Binding) : Rendering Unit :=
  onScopes fun s => s.define s.current name b

/-- Runs in a scope of its own, which is closed however the run ends. -/
def inScope {α : Type} (bindings : Scope) (a : Rendering α) : Rendering α := do
  onScopes fun s => bindings.foldl (fun s (name, b) => s.define s.current name b) s.push
  ExceptT.mk do
    let result ← a.run
    modify fun s => { s with scopes := s.scopes.pop }
    pure result

/-- Whether a gate is open; a closed one is noted. -/
def gate (c : Config) (f : Feature) (l : Location) : Rendering Bool := do
  if c.enabled f then pure true
  else
    note (.codeSkipped f) l
    pure false

end Rendering

open Rendering

/-- Whether a text lets a condition hold: all texts do but one. -/
def holds (t : Text) : Bool := t.trim ≠ Setting.no

/-- Refuses the names that the language keeps for itself. -/
def checkName (name : Text) (l : Location) : Rendering Unit :=
  if isReserved name then fail (.reservedName name) l else pure ()

/-- Refuses names that begin like those of variables. -/
def checkSigil (name : Text) (l : Location) : Rendering Unit :=
  if name.head? = some Scopes.sigil then fail (.sigilName name) l else pure ()

/-- Notes that a name is missing in the innermost scope. -/
def noteMissing (name : Text) (l : Location) : Rendering Unit := do
  let s ← scopes
  let counterpart := Scopes.variableName name
  if (s.local? s.current counterpart).isSome then note (.missingButVariable name counterpart) l
  else note (.missingHere name) l

section

variable (host : Host) (c : Config)

/-- Content as text. Content that does not fit the encoding is read as UTF-8. -/
def decodeContent (bytes : Bytes) (l : Location) : Rendering Text :=
  match decode? c.encoding bytes with
  | some t => pure t
  | none => do
    note (.undecodable c.encoding) l
    pure (Utf8.decodeLossy bytes)

def readUrl (url : Text) (l : Location) : Rendering Text := do
  if !(← gate c .net l) then return []
  let now ← answers host
  call (.fetch url)
  match now.fetch url with
  | .ok bytes => decodeContent c bytes l
  | .error e => fail (.host url e.message) l

/-- The content of a file, whose path is seen from the directory of the program. -/
def readFile (target : Text) (l : Location) : Rendering Text := do
  if !(← gate c .files l) then return []
  let path := Path.join c.filePath target
  let found := (← answers host).isFile path
  call (.probe path found)
  if !found then fail (.fileNotFound path) l
  let now ← answers host
  call (.read path)
  match now.read path with
  | .ok bytes => decodeContent c bytes l
  | .error e => fail (.host path e) l

def runCommand (command : Text) (l : Location) : Rendering Text := do
  if !(← gate c .exec l) then return []
  let now ← answers host
  call (.exec command)
  match now.shell command with
  | .ok bytes => pure (Utf8.decodeLossy bytes)
  | .error e => fail (.host command e.message) l

/-- The text of an expression with the variables of the innermost scope filled in. -/
def evaluate (source : Text) (l : Location) : Rendering Text := do
  if !(← gate c .eval l) then return []
  let s ← scopes
  let values := s.variableTexts s.current
  let source := substitute (fun name => values.get? name) source
  call (.evaluate source)
  match host.evaluate source with
  | .ok t => pure t
  | .error e => fail (.evaluation source e.message) l

def readEnvironment (name : Text) (l : Location) : Rendering Text := do
  if !(← gate c .env l) then return []
  call (.environment name)
  match host.environment name with
  | some t => pure t
  | none => do
    note (.unsetVariable name) l
    pure []

/-- Runs a built-in command on its arguments, whose number is judged first. Most change the scopes
and give no text. -/
def runBuiltin (b : Builtin) (args : List Text) (l : Location) : Rendering Text :=
  match b, args with
  | .var, [name, value] => do
    let name := name.trim
    checkName name l
    checkSigil name l
    define (Scopes.variableName name) (.text value)
    pure []
  | .toParent, [name] => do
    let name := name.trim
    checkName name l
    let s ← scopes
    match s.local? s.current name, s.parent? s.current with
    | none, _ => noteMissing name l
    | some b, some parent => onScopes fun s => s.define parent name b
    | some _, none => note (.noParentToReach name) l
    pure []
  | .toChild, [name] => do
    let name := name.trim
    checkName name l
    let s ← scopes
    match s.parent? s.current with
    | none => note (.noParentToAsk name) l
    | some parent =>
      match s.local? parent name with
      | some b => define name b
      | none => note (.missingInParent name) l
    pure []
  | .del, [name] => do
    let name := name.trim
    checkName name l
    let s ← scopes
    if (s.local? s.current name).isSome then onScopes fun s => s.erase s.current name
    else noteMissing name l
    pure []
  | .halt, [] => fail (.halted none) l
  | .halt, [message] => fail (.halted (if message.isEmpty then none else some message)) l
  | .env, [name] => readEnvironment host c name.trim l
  | b, args => fail (.argumentCount b.name b.arity args.length) l

/-- The bindings of a call: parameters in order, then what the call names itself. -/
def callBindings (params args : List Text) (named : List (Text × Text)) : Scope :=
  (params.zip args).map (fun (p, v) => (Scopes.variableName p, .text v)) ++
    named.map fun (k, v) => (Scopes.variableName ('p' :: '_' :: k), .text v)

end

/-- What a call does once its arguments and parameters are texts: built-in commands come first,
then what the innermost scope sees. -/
def runCall (host : Host) (c : Config) (visit : Node → Rendering Text) (name : Text)
    (args : List Text) (named : List (Text × Text)) (l : Location) : Rendering Text :=
  match Builtin.ofName? name with
  | some b =>
    if named.isEmpty then runBuiltin host c b args l
    else fail (.parameterCount name named.length) l
  | none => do
    let s ← scopes
    match s.lookup? s.current name with
    | none =>
      if (s.lookup? s.current (Scopes.variableName name)).isSome then fail (.didYouMean name) l
      else fail (.undefinedFunction name) l
    | some b =>
      if args.length ≠ b.params.length then
        fail (.argumentCount name (.exactly b.params.length) args.length) l
      else match b with
        | .text value => pure value
        | .function params body => inScope (callBindings params args named) (visit body)

/-- The text of the first case whose value is the subject. -/
def runCases (visit : Node → Rendering Text) (subject : Text) : List Node → Rendering Text
  | [] => pure []
  | .mk (.case value body) _ :: cases => do
    if (← visit value) = subject then visit body else runCases visit subject cases
  | _ :: cases => runCases visit subject cases

/-- The texts of the rounds of a loop, those of earlier rounds being given latest first. -/
def runLoop (condition body next : Rendering Text) : Nat → List Text → Rendering Text
  | 0, _ => throw .exhausted
  | rounds + 1, done => do
    if holds (← condition) then
      let text ← body
      let _ ← next
      runLoop condition body next rounds (text :: done)
    else pure done.reverse.flatten

/-- The text of a parameter value; a flag has none. -/
def visitEntry (visit : Node → Rendering Text) (entry : Text × Option Node) :
    Rendering (Text × Text) :=
  match entry with
  | (key, some value) => do return (key, ← visit value)
  | (key, none) => pure (key, [])

/-- The text of a node. -/
def visit (host : Host) (c : Config) : Nat → Node → Rendering Text
  | 0, _ => throw .exhausted
  | steps + 1, .mk form l =>
    let visit := visit host c steps
    match form with
    | .group body => do return (← body.mapM visit).flatten
    | .raw text => pure text
    | .comment _ | .use _ _ _ => pure []
    | .call name params args => do
      let args ← args.mapM visit
      let named ← (params.elim [] Params.entries).mapM (visitEntry visit)
      runCall host c visit name args named l
    | .define name params body => do
      let text := (← visit name).trim
      checkName text name.location
      checkSigil text name.location
      define text (.function params.keys body)
      pure []
    | .branch condition yes no => do
      if holds (← visit condition) then visit yes
      else match no with
        | some no => visit no
        | none => pure []
    | .loop first condition next body => do
      let _ ← visit first
      runLoop (visit condition) (visit body) (visit next) steps []
    | .choice subject cases => do runCases visit (← visit subject) cases
    | .case _ _ => fail .caseOutsideMatch l
    | .url target => do readUrl host c (← visit target).trim l
    | .file target => do readFile host c (← visit target).trim l
    | .exec command => do runCommand host c (← visit command) l
    | .expression source => evaluate host c source l

end Stencil
