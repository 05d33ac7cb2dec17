import Stencil.Digest
import Stencil.Entries
import Stencil.Encoding
import Stencil.Expr.Parser
import Stencil.Path

/-! What a template can ask of its surroundings, and files that are kept in memory. -/
namespace Stencil

/-- Why a command or a fetch gives nothing. -/
inductive HostCause where
  | spawn (program : Text) (reason : String)
  | status (command : Text) (code : Int) (stderr : Text)
  deriving DecidableEq, Repr

def HostCause.message : HostCause → String
  | .spawn program reason => s!"failed to spawn '{program.str}': {reason}"
  | .status command code stderr => s!"'{command.str}' exited with status {code}: {stderr.str}"

/-- What a host was asked. -/
inductive Call where
  /-- Whether there is a file, with the answer. -/
  | probe (path : Text) (found : Bool)
  | read (path : Text)
  | fetch (url : Text)
  | exec (command : Text)
  | evaluate (source : Text)
  | environment (name : Text)
  deriving DecidableEq, Repr

/-- What can be asked of files, the net and the shell at one moment. -/
structure Answers where
  isFile : Text → Bool
  read : Text → Except String Bytes
  fetch : Text → Except HostCause Bytes
  shell : Text → Except HostCause Bytes

/-- The surroundings of a template. Commands may change files, so that answers depend on what was
asked before. -/
structure Host where
  answers : List Call → Answers
  evaluate : Text → Except ExprCause Text
  environment : Text → Option Text
  /-- The SHA-256 digest of content in lower case hexadecimal digits. -/
  digest : Bytes → Text := Digest.hex
  /-- How deep imports may nest. No content is entered again on the way to an import, so as many
  levels as there are contents are enough. -/
  nesting : Nat

/-- The host as it is after it was asked something. -/
def Host.after (h : Host) (past : List Call) : Host :=
  { h with answers := fun calls => h.answers (past ++ calls) }

/-- Files in memory, each under its normalized path. -/
structure Files where
  entries : Entries Text Bytes

namespace Files

def empty : Files := ⟨[]⟩

def insert (path : Text) (content : Bytes) (f : Files) : Files :=
  ⟨f.entries.insert (Path.normalize path) content⟩

def isFile (path : Text) (f : Files) : Bool := f.entries.has (Path.normalize path)

def read (path : Text) (f : Files) : Except String Bytes :=
  match f.entries.get? (Path.normalize path) with
  | some content => .ok content
  | none => .error s!"{path.str} not found"

end Files

/-- The calculator as a host gives it: the text of the value. -/
def calculator (source : Text) : Except ExprCause Text := (calculate source).map Value.toText

/-- The host that has content for paths and the calculator, and nothing else. -/
def Host.offline (read : Text → Except String Bytes) : Host where
  answers := fun _ =>
    { isFile := fun path => (read path).isOk
      read
      fetch := fun _ => .error (.spawn "curl".toList "offline")
      shell := fun _ => .error (.spawn "sh".toList "offline") }
  evaluate := calculator
  environment := fun _ => none
  nesting := 0

end Stencil
