import Stencil.Host
import Stencil.Journal
import Stencil.Text.Blank

/-! Imports: what they name, which checks they pass, and how the content of a file joins a
program. -/
namespace Stencil

/-- An import as it stands in a program. -/
structure Use where
  target : Node
  hash : Option Node
  params : Option (Params Node)
  location : Location

namespace Node

def isUse : Node → Bool
  | mk (.use _ _ _) _ => true
  | _ => false

/-- The imports in a node that are not inside other imports. Those in a parameter list come after
those in the other parts. -/
def uses : Node → List Use :=
  foldWith fun form l =>
    match form with
    | .use target hash params =>
      [⟨target.1, hash.map Prod.fst, params.map (·.map Prod.fst), l⟩]
    | form => form.parts.flatMap Prod.snd

/-- The node without the imports among its statements, at every depth. -/
def withoutUses : Node → Node :=
  fold fun form l => mk (form.mapBody (·.filter (!·.isUse))) l

end Node

/-- Where the content of an import comes from. -/
inductive Origin where
  | package
  | net
  | files
  deriving DecidableEq, Repr

def Origin.ofTarget (target : Text) : Origin :=
  if "pkg:".toList.isPrefixOf target then .package
  else if Text.contains "://".toList target then .net
  else .files

/-- The name by which a file is known while it is imported. -/
def importKey (directory target : Text) : Text := Path.normalize (Path.join directory target)

namespace Use

open Stencil.Action

variable (host : Host) (c : Config) (u : Use)

/-- What the target says; an expression is evaluated without variables, if its gate is open. -/
def targetText? : Action (Option Text) := do
  let found ← match u.target with
    | .mk (.expression source) _ =>
      if c.enabled .eval then do
        call (.evaluate source)
        pure ((host.evaluate source).toOption.map some)
      else do
        note (.importSkipped .eval) u.location
        return none
    | n => pure (n.text?.map some)
  match found with
  | some (some t) =>
    if t.trim.isEmpty then fail (.importing .invalidTarget) u.location else pure (some t.trim)
  | _ => fail (.importing .invalidTarget) u.location

/-- The digest that the content must have, empty where any will do. -/
def wantedHash : Action Text :=
  match u.hash with
  | none => pure []
  | some n =>
    match n.text? with
    | some t => pure t.trim
    | none => fail (.importing .invalidTarget) u.location

/-- The setting that an entry of the import makes; a flag reads as yes. -/
def override (entry : Text × Option Node) : Action (Text × Text) := do
  let (key, value) := entry
  unless Setting.known key do note (.unknownOverride key) u.location
  match value with
  | none => pure (key, Setting.yes)
  | some n =>
    match n.text? with
    | some t => pure (key, t)
    | none => fail (.importing (.invalidOverride key)) u.location

def overrides : Action (Entries Text Text) := (u.params.elim [] Params.entries).mapM u.override

/-- Refuses to enter what is being imported already. -/
def checkCycle (chain : List Text) (key : Text) : Action Unit :=
  if chain.contains key then fail (.importing (.cycle (chain ++ [key]))) u.location else pure ()

/-- Refuses content that has another digest than is wanted. -/
def checkHash (target wanted : Text) (bytes : Bytes) : Action Unit :=
  let actual := host.digest bytes
  if wanted.isEmpty || actual.lower = wanted.lower then pure ()
  else fail (.importing (.hashMismatch target wanted actual)) u.location

/-- Content as text. An unknown encoding is taken for UTF-8 with losses. -/
def decodeContent (target encoding : Text) (bytes : Bytes) : Action Text :=
  match Encoding.ofName? encoding with
  | none => do
    note (.unsupportedEncoding encoding) u.location
    pure (Utf8.decodeLossy bytes)
  | some e =>
    match e.decode? bytes with
    | some t => pure t
    | none => fail (.importing (.undecodable target encoding)) u.location

/-- Content that was found: its bytes, the key it was found under, and its directory. -/
structure Found where
  bytes : Bytes
  key : Text
  directory : Text

/-- Finds the content of a target, unless a gate is closed or it comes from a package. -/
def find (chain : List Text) (target : Text) : Action (Option Found) :=
  match Origin.ofTarget target with
  | .package => do
    note (.packageSkipped target) u.location
    pure none
  | .net =>
    if c.enabled .net then do
      u.checkCycle chain target
      let now ← answers host
      call (.fetch target)
      match now.fetch target with
      | .ok bytes => pure (some ⟨bytes, target, c.filePath⟩)
      | .error e => fail (.importing (.fetch target e.message)) u.location
    else do
      note (.importSkipped .net) u.location
      pure none
  | .files =>
    if c.enabled .files then do
      let key := importKey c.filePath target
      u.checkCycle chain key
      let found := (← answers host).isFile key
      call (.probe key found)
      if !found then fail (.importing (.fileNotFound key)) u.location
      let now ← answers host
      call (.read key)
      match now.read key with
      | .ok bytes => pure (some ⟨bytes, key, Path.directory key⟩)
      | .error e => fail (.importing (.unreadable key e)) u.location
    else do
      note (.importSkipped .files) u.location
      pure none

/-- The statements that an import brings in. `nested` compiles its content under a configuration,
given the keys of what is being imported. -/
def resolve (nested : Text → Config → List Text → Action (List Node)) (chain : List Text) :
    Action (List Node) := do
  if !c.enabled .imports then
    note (.importSkipped .imports) u.location
    return []
  let some target ← u.targetText? host c | return []
  let wanted ← u.wantedHash
  let overrides ← u.overrides
  let some found ← u.find host c chain target | return []
  u.checkHash host target wanted found.bytes
  let inner := c.forImport target found.directory overrides
  let content ← u.decodeContent target inner.encoding found.bytes
  note (.importing target !overrides.isEmpty) u.location
  within ⟨target, u.location⟩ (nested content inner (chain ++ [found.key]))

end Use
end Stencil
