import Stencil.Directory
import Stencil.Shell.Command

/-! What a running shell keeps, and how it reads, writes and complains. -/
namespace Stencil.Shell

/-- Where what is read comes from, or where what is written goes. -/
inductive Channel where
  | nothing
  /-- What is left to be read. -/
  | source (rest : Text)
  /-- What was written, piece by piece, the last piece first. -/
  | sink (pieces : List Text)
  /-- A file, and how far it was read or written. -/
  | file (names : List Text) (offset : Nat) (appends : Bool)
  deriving DecidableEq, Repr

structure Variable where
  value : Option Text
  exported : Bool
  fixed : Bool
  deriving DecidableEq, Repr

/-- What a running shell keeps. Parts of a shell that run on a copy share the directory and the
channels with it. -/
structure State where
  directory : Directory
  channels : Array Channel
  place : Directory.Place
  /-- The way to where the shell is, as it was walked. -/
  path : Text
  bindings : Entries Text Variable
  functions : Entries Text Command
  arguments : List Text
  name : Text
  status : Nat
  /-- The number of its channel for each open descriptor. -/
  descriptors : Entries Nat Nat
  /-- The letters of the options that are on. -/
  flags : Text
  line : Nat
  /-- The command of the shell itself that is running. -/
  caller : Option Text
  traps : Entries Text Text
  /-- What the variables of each running function were before. -/
  locals : List (Entries Text (Option Variable))
  /-- Whether what runs is a condition, which may fail. -/
  tested : Bool
  process : Nat
  /-- Whether a shell waits for what is run, and tells of what a signal has ended. -/
  awaited : Bool
  /-- The statuses of the commands that were put in the background, by their numbers. -/
  jobs : Entries Nat Nat
  /-- How many characters of an argument `getopts` has read. -/
  optionOffset : Nat
  /-- The permissions that new files do not get. -/
  mask : Nat
  /-- The status of the commands whose output was filled in last. -/
  captured : Nat
  /-- How many loops are running. -/
  loops : Nat

/-- How a command ends that does not come to its end. -/
inductive Jump where
  | exit (status : Nat)
  /-- The end of a command of the shell itself. -/
  | failed (status : Nat)
  | leave (status : Nat)
  | stop (levels : Nat)
  | next (levels : Nat)
  | killed (process signal : Nat)
  | exhausted
  deriving DecidableEq, Repr

abbrev Running := ExceptT Jump (StateM State)

/-- The text of the number of something. -/
def digits (n : Nat) : Text := Nat.toDigits 10 n

/-- A text of bytes, and the text that they say. -/
def ofUtf8 (t : Text) : Text := Utf8.decodeLossy (Encoding.octets t)

def toUtf8 (t : Text) : Text := Encoding.bytewise (Bytes.ofText t)

namespace Channel

/-- What is left to be read, if the channel can be read. -/
def rest (d : Directory) : Channel → Option Text
  | nothing => some []
  | source t => some t
  | sink _ => none
  | file names offset _ =>
    match d.items.get? names with
    | some (.file content _) => some (Encoding.bytewise (content.drop offset))
    | some .folder => none
    | none => some []

/-- The channel once characters are read. -/
def advance (n : Nat) : Channel → Channel
  | source t => source (t.drop n)
  | file names offset appends => file names (offset + n) appends
  | c => c

/-- The content of a file once something is written at a place in it. -/
def overwrite (content : Bytes) (offset : Nat) (new : Bytes) : Bytes :=
  content.take offset ++ List.replicate (offset - content.length) 0 ++ new ++
    content.drop (offset + new.length)

/-- The directory and the channel once something is written, if the channel can be written. -/
def write (d : Directory) (t : Text) : Channel → Option (Directory × Channel)
  | nothing => some (d, nothing)
  | source _ => none
  | sink pieces => some (d, sink (t :: pieces))
  | file names offset appends =>
    match d.items.get? names with
    | some (.file content runs) =>
      let offset := if appends then content.length else offset
      let new := overwrite content offset (Encoding.octets t)
      some (⟨d.items.insert names (.file new runs)⟩, file names (offset + t.length) appends)
    | _ => some (d, file names offset appends)

/-- What was written. -/
def written : Channel → Text
  | sink pieces => pieces.reverse.flatten
  | _ => []

end Channel

namespace Running

/-- Adds a channel and gives its number. -/
def connect (c : Channel) : Running Nat := do
  let s ← get
  set { s with channels := s.channels.push c }
  pure s.channels.size

def channelAt (i : Nat) : Running Channel := do return (← get).channels.getD i .nothing

def setChannel (i : Nat) (c : Channel) : Running Unit :=
  modify fun s => { s with channels := s.channels.setIfInBounds i c }

/-- The number of the channel of a descriptor. -/
def channel? (descriptor : Nat) : Running (Option Nat) := do
  return (← get).descriptors.get? descriptor

/-- Writes to a channel and says whether that was possible. -/
def putAt (i : Nat) (t : Text) : Running Bool := do
  let s ← get
  match (← channelAt i).write s.directory t with
  | none => pure false
  | some (d, c) => do
    set { s with directory := d, channels := s.channels.setIfInBounds i c }
    pure true

/-- Writes to a descriptor and says whether that was possible. -/
def put (descriptor : Nat) (t : Text) : Running Bool := do
  match ← channel? descriptor with
  | none => pure false
  | some i => putAt i t

/-- What is left to be read at a descriptor, if it can be read. -/
def pending (descriptor : Nat) : Running (Option Text) := do
  match ← channel? descriptor with
  | none => pure none
  | some i => return (← channelAt i).rest (← get).directory

/-- Reads characters away. -/
def consume (descriptor : Nat) (n : Nat) : Running Unit := do
  match ← channel? descriptor with
  | none => pure ()
  | some i => setChannel i ((← channelAt i).advance n)

def out (t : Text) : Running Unit := do let _ ← put 1 t

def err (t : Text) : Running Unit := do let _ ← put 2 t

/-- Complains about something, with the name of the shell, the line and the command of the shell
that is running. -/
def complain (t : Text) : Running Unit := do
  let s ← get
  err (s.name ++ ": ".toList ++ digits s.line ++ ": ".toList ++
    s.caller.elim [] (· ++ ": ".toList) ++ t ++ ['\n'])

/-- Complains and gives the running command up. -/
def abort {α : Type} (t : Text) : Running α := do
  complain t
  throw (.failed 2)

def hasFlag (c : Char) : Running Bool := do return (← get).flags.any (· = c)

def binding? (name : Text) : Running (Option Variable) := do
  return (← get).bindings.get? name

/-- The value of a variable. -/
def value? (name : Text) : Running (Option Text) := do
  return (← binding? name).bind Variable.value

def setVariable (name : Text) (v : Variable) : Running Unit :=
  modify fun s => { s with bindings := s.bindings.insert name v }

/-- Gives a variable a value unless it is fixed. The place of `getopts` in an argument is lost with
the number of that argument. -/
def assign (name value : Text) : Running Unit := do
  let v := (← binding? name).getD ⟨none, false, false⟩
  if v.fixed then abort (name ++ ": is read only".toList)
  setVariable name { v with value := some value, exported := v.exported || (← hasFlag 'a') }
  if name = "OPTIND".toList then modify fun s => { s with optionOffset := 0 }

def setStatus (n : Nat) : Running Unit := modify fun s => { s with status := n }

/-- Runs something that leaves parts of the state as they were, however it ends. -/
def keeping {α : Type} (restore : State → State → State) (a : Running α) : Running α :=
  ExceptT.mk do
    let before ← get
    let result ← a.run
    modify (restore before)
    pure result

/-- Where a path leads. -/
def locate (path : Text) : Running Directory.Place := do
  let s ← get
  return s.directory.locate s.place (ofUtf8 path)

/-- The descriptor that a path stands for. -/
def device? (path : Text) : Option Nat :=
  match path.str with
  | "/dev/stdin" => some 0
  | "/dev/stdout" => some 1
  | "/dev/stderr" => some 2
  | _ =>
    if "/dev/fd/".toList.isPrefixOf path then (String.ofList (path.drop 8)).toNat? else none

/-- The number of the channel of a file that is opened for a redirection, or why there is none. -/
def openFile (way : Way) (path : Text) : Running (Except PathFault Nat) := do
  match device? path with
  | some n => return (← channel? n).elim (.error .missing) .ok
  | none =>
    let place ← locate path
    let reset (names : List Text) (runs : Bool) : Running Unit :=
      modify fun s => { s with directory := ⟨s.directory.items.insert names (.file [] runs)⟩ }
    match way, place with
    | _, .null => return .ok (← connect .nothing)
    | .read, .file names _ _ | .read, .folder names => return .ok (← connect (.file names 0 false))
    | .read, .vacant _ => return .error .missing
    | .write, .file names _ runs | .overwrite, .file names _ runs => do
      if way = .write && (← hasFlag 'C') then return .error .exists
      reset names runs
      return .ok (← connect (.file names 0 false))
    | _, .file names _ _ => return .ok (← connect (.file names 0 (way = .append)))
    | _, .vacant names =>
      if Directory.wantsDirectory (ofUtf8 path) then return .error .folder
      else do
        reset names false
        return .ok (← connect (.file names 0 (way = .append)))
    | _, .folder _ => return .error .folder
    | _, .lost f => return .error f

/-- Makes a text the content of a file, or says why it cannot be. -/
def save (way : Way) (path t : Text) : Running (Option PathFault) := do
  match ← openFile way path with
  | .ok i => do
    let _ ← putAt i t
    pure none
  | .error fault => pure (some fault)

end Running
end Stencil.Shell
