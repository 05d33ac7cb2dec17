import Stencil.Encoding
import Stencil.Entries
import Stencil.Path

/-! A working directory in memory, in which paths are followed step by step: every step but the
last must be at a directory. -/
namespace Stencil

/-- What stands under a name. -/
inductive Item where
  /-- A file; it can be run if its owner said so. -/
  | file (content : Bytes) (runs : Bool)
  | folder
  deriving DecidableEq, Repr

/-- Why a path leads to nothing that can be used. -/
inductive PathFault where
  | missing
  | denied
  | exists
  /-- A step was taken at a file. -/
  | blocked
  | folder
  | invalid
  | tooLong
  | notEmpty
  deriving DecidableEq, Repr

namespace PathFault

/-- What the system says about a fault. -/
def text : PathFault → String
  | missing => "No such file or directory"
  | denied => "Permission denied"
  | .exists => "File exists"
  | blocked => "Not a directory"
  | folder => "Is a directory"
  | invalid => "Invalid argument"
  | tooLong => "File name too long"
  | notEmpty => "Directory not empty"

def number : PathFault → Nat
  | missing => 2
  | denied => 13
  | .exists => 17
  | blocked => 20
  | folder => 21
  | invalid => 22
  | tooLong => 36
  | notEmpty => 39

def message (f : PathFault) : String := s!"{f.text} (os error {f.number})"

end PathFault

/-- Items by the names on the way to them. -/
structure Directory where
  items : Entries (List Text) Item

namespace Directory

/-- Where a path stands. -/
inductive Place where
  | folder (names : List Text)
  | file (names : List Text) (content : Bytes) (runs : Bool)
  /-- The device that is always empty. -/
  | null
  /-- A free name in a directory. -/
  | vacant (names : List Text)
  | lost (fault : PathFault)
  deriving DecidableEq, Repr

/-- How many bytes a name may have. -/
def maxName : Nat := 255

/-- How many bytes a path may have. -/
def maxPath : Nat := 4095

variable (d : Directory)

def empty : Directory := ⟨[]⟩

def isFolder (names : List Text) : Bool :=
  names.isEmpty || d.items.get? names = some .folder

/-- Puts a directory under a name unless there is one. -/
def addFolder (names : List Text) : Directory :=
  if d.isFolder names then d else ⟨d.items.insert names .folder⟩

/-- Puts an item under a name and directories on the way to it. -/
def insertItem (names : List Text) (i : Item) : Directory :=
  let around := (List.range names.length).foldl (fun d n => d.addFolder (names.take n)) d
  ⟨around.items.insert names i⟩

/-- Puts a file at a path. -/
def insert (path : Text) (content : Bytes) (runs : Bool) : Directory :=
  d.insertItem (Path.names path) (.file content runs)

/-- Takes away what stands under a name, and all that is inside. -/
def remove (names : List Text) : Directory :=
  ⟨d.items.filter fun (key, _) => !names.isPrefixOf key⟩

/-- The names in a directory. -/
def children (names : List Text) : List Text :=
  d.items.keys.filterMap fun key =>
    if key.dropLast = names then key.getLast? else none

/-- The directories that stand at the root, where the working directory is one too. -/
def around : List String :=
  ["bin", "boot", "dev", "etc", "home", "lib", "media", "mnt", "opt", "proc", "root", "run", "sbin",
    "srv", "sys", "tmp", "usr", "var"]

/-- The name of the working directory at the root. -/
def ownName : Text := "work".toList

/-- The way to the root, which is that of no path from the working directory. -/
def root : List Text := [['/']]

/-- The place that a name in a directory leads to. -/
def enter (names : List Text) (name : Text) : Place :=
  if (Bytes.ofText name).length > maxName then .lost .tooLong
  else if names = root && name = ownName then .folder []
  else match d.items.get? (names ++ [name]) with
    | some (.file content runs) => .file (names ++ [name]) content runs
    | some .folder => .folder (names ++ [name])
    | none =>
      if names = root && around.contains name.str then .folder (names ++ [name])
      else if names = root ++ ["dev".toList] && name = "null".toList then .null
      else .vacant (names ++ [name])

def step : Place → Path.Component → Place
  | .file _ _ _, _ | .null, _ => .lost .blocked
  | .vacant _, _ => .lost .missing
  | .lost f, _ => .lost f
  | .folder names, .current => .folder names
  | .folder _, .root => .folder root
  | .folder names, .parent =>
    if names.isEmpty || names = root then .folder root else .folder names.dropLast
  | .folder names, .name n => d.enter names n

/-- Whether the spelling of a path asks for a directory. -/
def wantsDirectory (path : Text) : Bool := (Path.parts path).2.getLast?.any Path.isIdle

/-- The place that a path leads to from another place. -/
def locate (start : Place) (path : Text) : Place :=
  if path.isEmpty then .lost .missing
  else if (Bytes.ofText path).length > maxPath then .lost .tooLong
  else match (Path.components path).foldl d.step start with
    | .file names content runs =>
      if wantsDirectory path then .lost .blocked else .file names content runs
    | .null => if wantsDirectory path then .lost .blocked else .null
    | place => place

/-- Whether a path leads from the working directory to a file. -/
def isFile (path : Text) : Bool :=
  match d.locate (.folder []) path with
  | .file _ _ _ => true
  | _ => false

/-- The content of the file that a place is, or why it is none. -/
def Place.content : Place → Except PathFault Bytes
  | .file _ content _ => .ok content
  | .null => .ok []
  | .folder _ => .error .folder
  | .vacant _ => .error .missing
  | .lost f => .error f

/-- The content of the file that a path leads to from the working directory. No path holds a
character of number zero. -/
def read (path : Text) : Except String Bytes :=
  if path.any (· = Char.ofNat 0) then .error "file name contained an unexpected NUL byte"
  else (d.locate (.folder []) path).content.mapError PathFault.message

end Directory
end Stencil
