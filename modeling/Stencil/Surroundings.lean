import Stencil.Host
import Stencil.Shell
import Stencil.Text.Blank

/-! A host of its own: a directory in memory, whose programs and whose shell may change it. -/
namespace Stencil

/-- A directory, in which programs stand in `bin`; whether there are other programs; and the
environment. -/
structure Surroundings where
  directory : Directory
  hasShell : Bool
  environment : Entries Text Text

namespace Surroundings

variable (s : Surroundings)

/-- How many contents may be fetched on the way to an import. -/
def maxFetches : Nat := 1000

/-- Where programs are looked for. -/
def path : Text :=
  '/' :: Directory.ownName ++ "/bin".toList ++
    if s.hasShell then ":/usr/local/sbin:/usr/local/bin:/usr/sbin:/usr/bin:/sbin:/bin".toList
    else []

def exported : Entries Text Text :=
  (("PATH".toList, s.path) :: ("PWD".toList, '/' :: Directory.ownName) :: s.environment).map
    fun (name, t) => (Shell.toUtf8 name, Shell.toUtf8 t)

/-- What a program does in a directory: what it writes if it succeeds, and the directory then. -/
def output (d : Directory) (program : Text) (args : List Text) (shown : Text) :
    Except HostCause Bytes × Directory :=
  match Shell.outcome d s.exported program args with
  | .error reason => (.error (.spawn program reason), d)
  | .ok o =>
    match o.status with
    | some 0 => (.ok o.stdout, o.directory)
    | code =>
      (.error (.status shown (code.elim (-1) Int.ofNat) (Utf8.decodeLossy o.stderr).trim),
        o.directory)

def fetch (d : Directory) (url : Text) : Except HostCause Bytes × Directory :=
  s.output d "curl".toList ["-fsSL".toList, url] ("curl ".toList ++ url)

def exec (d : Directory) (command : Text) : Except HostCause Bytes × Directory :=
  s.output d "sh".toList ["-c".toList, command] command

/-- The directory after something was asked. -/
def follow (d : Directory) : Call → Directory
  | .fetch url => (s.fetch d url).2
  | .exec command => (s.exec d command).2
  | _ => d

/-- The host that looks for files in the directory and fetches with `curl`. -/
def host : Host where
  answers := fun calls =>
    let d := calls.foldl s.follow s.directory
    { isFile := d.isFile
      read := d.read
      fetch := fun url => (s.fetch d url).1
      shell := fun command => (s.exec d command).1 }
  evaluate := calculator
  environment := fun name => s.environment.get? name
  nesting := s.directory.items.length + maxFetches

end Surroundings
end Stencil
