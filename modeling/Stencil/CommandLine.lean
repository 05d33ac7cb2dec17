import Stencil.Template

/-! The command line: options that hold for all files, and the files, which are rendered in turn and
each on its own. -/
namespace Stencil

/-- How a run that stopped is spoken of. -/
def Stop.message : Stop → String
  | .failed f => f.message
  | .exhausted => "rendering takes too many steps"

namespace CommandLine

def usage : Text :=
  "Usage: utpp [options] <files...>

Options:
  --allow-net   Allow network imports and \\url reads
  --allow-exec  Allow \\exec
  --allow-env   Allow \\env
  --no-eval     Disable inline expressions

Set RUST_LOG=utpp=info to see import notices.
".toList

/-- What the arguments ask for. -/
inductive Request where
  /-- To say how the program is used, after a complaint if there is one. -/
  | usage (complaint : Option Text)
  | render (c : Config) (files : List Text)
  deriving DecidableEq, Repr

/-- The setting that an option forces. -/
def setting? (arg : Text) : Option (Text × Text) :=
  match arg.str with
  | "--allow-net" => some (Feature.net.key, Setting.yes)
  | "--allow-exec" => some (Feature.exec.key, Setting.yes)
  | "--allow-env" => some (Feature.env.key, Setting.yes)
  | "--no-eval" => some (Feature.eval.key, Setting.no)
  | _ => none

/-- Reads arguments from the left, given the configuration and the files so far. What is no option
is a file. -/
def request (c : Config) (files : List Text) : List Text → Request
  | [] =>
    if files.isEmpty then .usage (some "Error: no files specified".toList) else .render c files
  | arg :: args =>
    if arg = "--help".toList || arg = "-h".toList then .usage none
    else match setting? arg with
      | some (key, value) => request (c.force key value) files args
      | none =>
        if "--".toList.isPrefixOf arg then .usage (some ("Unknown option: ".toList ++ arg))
        else request c (files ++ [arg]) args

/-- The configuration of a file: its name and its directory. -/
def fileConfig (c : Config) (path : Text) : Config :=
  (c.set Setting.fileName ((Path.fileName? path).getD path)).set Setting.filePath
    (Path.directory path)

/-- The text of a file, or what to report, and what the host was asked. -/
def renderFile (steps : Nat) (host : Host) (c : Config) (path : Text) :
    Except String Text × List Call :=
  match (host.answers []).read path with
  | .error e => (.error e, [.read path])
  | .ok bytes =>
    match Utf8.decode? bytes with
    | none => (.error "stream did not contain valid UTF-8", [.read path])
    | some source =>
      let host := host.after [.read path]
      let (result, journal) := (Stencil.render steps host source (fileConfig c path)).start
      (result.mapError Stop.message, .read path :: journal.calls)

/-- What a run writes, the code it exits with, and what the host was asked. -/
structure Outcome where
  code : Nat
  stdout : Text
  stderr : Text
  calls : List Call
  deriving DecidableEq, Repr

namespace Outcome

def nothing : Outcome := ⟨0, [], [], []⟩

/-- One outcome after another; a failure is not made good by what follows. -/
def append (a b : Outcome) : Outcome :=
  ⟨max a.code b.code, a.stdout ++ b.stdout, a.stderr ++ b.stderr, a.calls ++ b.calls⟩

end Outcome

/-- The outcome of one file: its text, or a line that reports the failure. -/
def fileOutcome (steps : Nat) (host : Host) (c : Config) (path : Text) : Outcome :=
  match renderFile steps host c path with
  | (.ok text, calls) => ⟨0, text, [], calls⟩
  | (.error e, calls) => ⟨1, [], path ++ ": ".toList ++ e.toList ++ ['\n'], calls⟩

/-- The outcome of files, one after another. -/
def filesOutcome (steps : Nat) (host : Host) (c : Config) : List Text → Outcome
  | [] => .nothing
  | path :: paths =>
    let o := fileOutcome steps host c path
    o.append (filesOutcome steps (host.after o.calls) c paths)

/-- The outcome of a request. -/
def answer (steps : Nat) (host : Host) : Request → Outcome
  | .usage none => ⟨2, [], usage, []⟩
  | .usage (some complaint) => ⟨2, [], complaint ++ '\n' :: usage, []⟩
  | .render c files => filesOutcome steps host c files

/-- The outcome of a run with the given arguments. -/
def run (steps : Nat) (host : Host) (args : List Text) : Outcome :=
  answer steps host (request Config.initial [] args)

end CommandLine
end Stencil
