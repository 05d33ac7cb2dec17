import Stencil.CommandLine
import Stencil.Snapshot

/-! The program: runs the command line on what is known of the file system and the environment, and
looks up what it turns out to need, until nothing is missing. -/
namespace Stencil.Program

/-- Steps that the rendering of a file may take. -/
def steps : Nat := 1000000000

/-- Why a file cannot be read, as the system puts it. -/
def reason : IO.Error → String
  | .noFileOrDirectory _ _ _ => "No such file or directory (os error 2)"
  | .permissionDenied _ _ _ => "Permission denied (os error 13)"
  | .inappropriateType _ _ details =>
    if details.toLower = "is a directory" then "Is a directory (os error 21)"
    else "Not a directory (os error 20)"
  | e => e.toString

def readFile (path : Text) : IO (Except String Bytes) := do
  try
    pure (.ok (← IO.FS.readBinFile path.str).toList)
  catch e => pure (.error (reason e))

/-- Finds out what a host was asked. -/
def learn (s : Snapshot) : Call → IO Snapshot
  | .probe path _ | .read path => do pure (s.insertContent path (← readFile path))
  | .environment name => do
    pure (s.insertValue name ((← IO.getEnv name.str).map String.toList))
  | _ => pure s

partial def outcome (args : List Text) (s : Snapshot) : IO CommandLine.Outcome := do
  let o := CommandLine.run steps s.host args
  match s.missing? o.calls with
  | none => pure o
  | some c => outcome args (← learn s c)

end Stencil.Program

def main (args : List String) : IO UInt32 := do
  let o ← Stencil.Program.outcome (args.map String.toList) .empty
  IO.print o.stdout.str
  IO.eprint o.stderr.str
  pure (UInt32.ofNat o.code)
