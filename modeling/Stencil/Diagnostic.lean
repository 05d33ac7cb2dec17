import Stencil.Config
import Stencil.Position

/-! What is worth saying about a template that is not an error. -/
namespace Stencil

inductive Severity where
  | info
  | warning
  deriving DecidableEq, Repr

def Severity.describe : Severity → String
  | .info => "info"
  | .warning => "warning"

structure Diagnostic where
  severity : Severity
  message : String
  location : Location
  deriving DecidableEq, Repr

def Diagnostic.describe (d : Diagnostic) : String :=
  s!"{d.severity.describe}: {d.message} at {d.location.describe}"

/-- The warnings among diagnostics. -/
def Diagnostic.warnings (ds : List Diagnostic) : List Diagnostic :=
  ds.filter (·.severity = .warning)

/-- What the stages have to say. -/
inductive Notice where
  | unknownSetting (key : Text)
  | severalBlocks
  | unknownOverride (key : Text)
  | importing (target : Text) (customized : Bool)
  | importSkipped (feature : Feature)
  | packageSkipped (target : Text)
  | unsupportedEncoding (encoding : Text)
  | codeSkipped (feature : Feature)
  | noParentToReach (binding : Text)
  | noParentToAsk (binding : Text)
  | missingHere (binding : Text)
  /-- There is a variable of the name that is missing. -/
  | missingButVariable (binding sigiled : Text)
  | missingInParent (binding : Text)
  | unsetVariable (name : Text)
  | undecodable (encoding : Text)
  deriving DecidableEq, Repr

namespace Notice

/-- A notice warns where something that the template asked for was left out. -/
def severity : Notice → Severity
  | .unknownSetting _ | .severalBlocks | .unknownOverride _ | .importing _ _ => .info
  | _ => .warning

def message : Notice → String
  | .unknownSetting key => s!"Unknown meta config key '{key.str}' defined"
  | .severalBlocks => "Multiple meta config blocks found"
  | .unknownOverride key => s!"Unknown meta config key '{key.str}' for import defined"
  | .importing target false => s!"Importing '{target.str}'"
  | .importing target true => s!"Importing '{target.str}' with custom config"
  | .importSkipped feature => s!"{feature.disabled}. Skipping import"
  | .packageSkipped target => s!"Package imports are not supported. Skipping '{target.str}'"
  | .unsupportedEncoding encoding =>
    s!"Unsupported file encoding '{encoding.str}', decoding as UTF-8"
  | .codeSkipped feature => s!"{feature.disabled}. Skipping code"
  | .noParentToReach binding =>
    s!"Cannot move {binding.str} to parent scope. No parent scope exists"
  | .noParentToAsk binding => s!"Cannot move {binding.str} to child scope. No parent scope exists"
  | .missingHere binding => s!"{binding.str} was not found in current scope"
  | .missingButVariable binding sigiled =>
    s!"{binding.str} was not found in current scope but a variable {sigiled.str} exists. " ++
      "Perhaps you meant this one"
  | .missingInParent binding => s!"{binding.str} was not found in parent scope"
  | .unsetVariable name => s!"Environment variable {name.str} is not set"
  | .undecodable encoding => s!"Content is not valid {encoding.str}, decoding as UTF-8"

def diagnostic (n : Notice) (location : Location) : Diagnostic := ⟨n.severity, n.message, location⟩

end Notice
end Stencil
