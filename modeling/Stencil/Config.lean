import Stencil.Delimiters
import Stencil.Entries

/-! Settings by name, those that no template can change, and the gates before effects. -/
namespace Stencil

namespace Setting

def fileName : Text := "fileName".toList
def filePath : Text := "filePath".toList
def fileEncoding : Text := "fileEncoding".toList
def version : Text := "version".toList
def escape : Text := "prefix".toList
def argStart : Text := "argStart".toList
def argEnd : Text := "argEnd".toList
def paramStart : Text := "paramStart".toList
def paramAssign : Text := "paramAssign".toList
def paramSep : Text := "paramSep".toList
def paramEnd : Text := "paramEnd".toList
def evalStart : Text := "evalStart".toList
def evalEnd : Text := "evalEnd".toList

/-- The value of an open gate. -/
def yes : Text := "true".toList

/-- The value of a closed gate. -/
def no : Text := "false".toList

end Setting

/-- What a template can reach outside itself. Each has a gate. -/
inductive Feature where
  | net
  | files
  | env
  | eval
  | imports
  | exec
  deriving DecidableEq, Repr

namespace Feature

def all : List Feature := [.net, .files, .env, .eval, .imports, .exec]

def key : Feature → Text
  | .net => "net".toList
  | .files => "files".toList
  | .env => "env".toList
  | .eval => "eval".toList
  | .imports => "imports".toList
  | .exec => "exec".toList

/-- How messages speak of a closed gate. -/
def disabled : Feature → String
  | .net => "Network access is disabled"
  | .files => "Reading files is disabled"
  | .env => "Environment access is disabled"
  | .eval => "Expression evaluation is disabled"
  | .imports => "Import resolution is disabled"
  | .exec => "Command execution is disabled"

end Feature

/-- The known settings with the values they begin with. -/
def Setting.defaults : Entries Text Text :=
  [(fileName, "stdin".toList), (filePath, ['.']), (fileEncoding, "utf-8".toList),
    (version, ['1']), (escape, ['\\']), (argStart, ['{']), (argEnd, ['}']), (paramStart, ['[']),
    (paramAssign, ['=']), (paramSep, [',']), (paramEnd, [']']), (evalStart, [Char.ofNat 96]),
    (evalEnd, [Char.ofNat 96]), (Feature.net.key, no), (Feature.files.key, yes),
    (Feature.env.key, no), (Feature.eval.key, yes), (Feature.imports.key, yes),
    (Feature.exec.key, no)]

def Setting.known (key : Text) : Bool := defaults.has key

/-- The settings in force. The forced ones outlast what a template sets, and pass on to imports. -/
structure Config where
  values : Entries Text Text
  forced : Entries Text Text
  deriving DecidableEq, Repr

namespace Config

/-- The configuration in which every setting has the value it begins with. -/
def initial : Config := ⟨Setting.defaults, []⟩

/-- The value of a setting; one that was never set reads as empty. -/
def get (key : Text) (c : Config) : Text := (c.values.get? key).getD []

def set (key value : Text) (c : Config) : Config := { c with values := c.values.insert key value }

/-- Sets a value for good. -/
def force (key value : Text) (c : Config) : Config :=
  ⟨c.values.insert key value, c.forced.insert key value⟩

def setFeature (f : Feature) (isOpen : Bool) (c : Config) : Config :=
  c.set f.key (if isOpen then Setting.yes else Setting.no)

/-- Whether the gate of a feature is open. -/
def enabled (f : Feature) (c : Config) : Bool := c.get f.key = Setting.yes

def fileName (c : Config) : Text := c.get Setting.fileName
def filePath (c : Config) : Text := c.get Setting.filePath
def encoding (c : Config) : Text := c.get Setting.fileEncoding

def delimiters (c : Config) : Delimiters where
  escape := c.get Setting.escape
  argStart := c.get Setting.argStart
  argEnd := c.get Setting.argEnd
  paramStart := c.get Setting.paramStart
  paramAssign := c.get Setting.paramAssign
  paramSep := c.get Setting.paramSep
  paramEnd := c.get Setting.paramEnd
  evalStart := c.get Setting.evalStart
  evalEnd := c.get Setting.evalEnd

/-- Gives every forced setting its forced value again. -/
def restoreForced (c : Config) : Config := { c with values := c.values.insertAll c.forced }

/-- The configuration of an imported file: what the importer forces, then what the import itself
sets, then who the file is, all of it forced. -/
def forImport (c : Config) (target path : Text) (overrides : Entries Text Text) : Config :=
  let own := (c.forced ++ overrides).foldl (fun d (key, value) => d.force key value) initial
  (own.force Setting.fileName target).force Setting.filePath path

end Config
end Stencil
