import Stencil.Node.Parser
import Stencil.Token.Lexer

/-! Why a template cannot be rendered: what went wrong, where, and through which imports it was
reached. -/
namespace Stencil

/-- Why settings in a template cannot be read. -/
inductive ConfigCause where
  | missingValue (key : Text)
  deriving DecidableEq, Repr

def ConfigCause.message : ConfigCause → String
  | .missingValue key => s!"invalid meta config pair '{key.str}', value cannot be empty"

/-- Why an import cannot be resolved. -/
inductive ImportCause where
  /-- The target or the digest is no plain text. -/
  | invalidTarget
  | invalidOverride (key : Text)
  | fileNotFound (path : Text)
  | unreadable (path : Text) (reason : String)
  | fetch (target : Text) (reason : String)
  | hashMismatch (target provided actual : Text)
  | undecodable (target encoding : Text)
  /-- What is being imported, outermost first, and then what would be imported again. -/
  | cycle (chain : List Text)
  deriving DecidableEq, Repr

def ImportCause.message : ImportCause → String
  | .invalidTarget =>
    "invalid use statement syntax, functions inside use statements are not allowed"
  | .invalidOverride key =>
    s!"invalid meta config for import key '{key.str}', values must not contain functions"
  | .fileNotFound path => s!"file not found: {path.str}"
  | .unreadable path reason => s!"failed to read {path.str}: {reason}"
  | .fetch target reason => s!"failed to import from '{target.str}' because {reason}"
  | .hashMismatch target provided actual =>
    s!"refused to import '{target.str}' because content hash does not match " ++
      s!"(provided: {provided.str}, actual: {actual.str})"
  | .undecodable target encoding => s!"content of '{target.str}' is not valid {encoding.str}"
  | .cycle chain => "import cycle: " ++ (Text.join " -> ".toList chain).str

/-- Why a program cannot be rendered. -/
inductive RenderCause where
  | undefinedFunction (name : Text)
  /-- There is a variable of the name that is missing. -/
  | didYouMean (name : Text)
  | argumentCount (name : Text) (wanted : Arity) (found : Nat)
  | parameterCount (name : Text) (found : Nat)
  | reservedName (name : Text)
  | sigilName (name : Text)
  | halted (message : Option Text)
  | evaluation (source : Text) (reason : String)
  | caseOutsideMatch
  | fileNotFound (path : Text)
  | host (target : Text) (reason : String)
  deriving DecidableEq, Repr

def RenderCause.message : RenderCause → String
  | .undefinedFunction name => s!"function \\{name.str} is undefined"
  | .didYouMean name =>
    s!"\\{name.str} was not found in current scope but a variable \\${name.str} exists"
  | .argumentCount name wanted found =>
    s!"expected {wanted.describe} arguments but got {found} in function \\{name.str}"
  | .parameterCount name found =>
    s!"expected 0 parameters but got {found} in function \\{name.str}"
  | .reservedName name => s!"'{name.str}' is a built-in and cannot be redefined"
  | .sigilName name => s!"'{name.str}' may not start with '$'"
  | .halted none => "execution halted"
  | .halted (some message) => s!"execution halted. {message.str}"
  | .evaluation source reason => s!"cannot evaluate '{source.str}': {reason}"
  | .caseOutsideMatch => "\\case used outside of \\match"
  | .fileNotFound path => s!"file {path.str} not found"
  | .host target reason => s!"cannot read {target.str}: {reason}"

/-- Why one of the stages stopped. -/
inductive Cause where
  | config (cause : ConfigCause)
  | lex (cause : LexCause)
  | parse (cause : ParseCause)
  | importing (cause : ImportCause)
  | render (cause : RenderCause)
  deriving DecidableEq, Repr

def Cause.message : Cause → String
  | .config cause => cause.message
  | .lex cause => cause.message
  | .parse cause => cause.message
  | .importing cause => cause.message
  | .render cause => cause.message

/-- An import whose content does not compile. -/
structure Include where
  target : Text
  location : Location
  deriving DecidableEq, Repr

/-- What went wrong and where, and the imports it was reached through, outermost first. -/
structure Failure where
  includes : List Include
  cause : Cause
  location : Location
  deriving DecidableEq, Repr

namespace Failure

/-- How an import speaks of what went wrong in it. -/
def includeMessage (target : Text) (inner : String) : String :=
  s!"failed to include '{target.str}': {inner}"

def message (f : Failure) : String :=
  f.includes.foldr
    (fun i inner => s!"{includeMessage i.target inner} at {i.location.describe}")
    s!"{f.cause.message} at {f.location.describe}"

/-- Puts an import around a failure in its content. -/
def within (i : Include) (f : Failure) : Failure := { f with includes := i :: f.includes }

/-- What fails as an import. -/
inductive ImportKind where
  | own (cause : ImportCause)
  /-- The content of an import does not compile. -/
  | included (target : Text) (inner : Failure)
  deriving DecidableEq, Repr

def ImportKind.message : ImportKind → String
  | .own cause => cause.message
  | .included target inner => includeMessage target inner.message

/-- The innermost failure of an import, for a cause inside some imports: the cause itself, if it is
one of an import, or else the innermost import around it. -/
def rootKindIn (cause : Cause) (location : Location) : List Include → Option ImportKind
  | [] =>
    match cause with
    | .importing cause => some (.own cause)
    | _ => none
  | i :: includes =>
    (rootKindIn cause location includes).or
      (some (.included i.target ⟨includes, cause, location⟩))

def rootKind? (f : Failure) : Option ImportKind := rootKindIn f.cause f.location f.includes

/-- The innermost failure of an import in its own words. -/
def rootMessage? (f : Failure) : Option String := f.rootKind?.map ImportKind.message

end Failure
end Stencil
