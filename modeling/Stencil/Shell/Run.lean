import Stencil.Shell.Builtin
import Stencil.Shell.Command.Parser
import Stencil.Shell.Utility

/-! Running commands. Every function here is given how commands that stand inside others are run. -/
namespace Stencil.Shell

open Running

/-- What a program is found to be. -/
inductive Found where
  | file (path content : Text)
  | utility (name : Text)
  | denied
  | missing
  deriving DecidableEq, Repr

namespace Found

/-- Where programs outside the working directory are. -/
def systemPlaces : List Text := ["/usr/bin".toList, "/bin".toList]

def shells : List String := ["sh", "dash", "bash"]

/-- Programs that run others. -/
def launchers : List String :=
  ["env", "xargs", "nohup", "timeout", "nice", "setsid", "find", "which"]

/-- Whether there is a program of a name outside the working directory. -/
def isProgram (name : Text) : Bool :=
  (Utility.run? name []).isSome || (shells ++ launchers).contains (String.ofList name)

/-- What is found at a path. -/
def atPath (path : Text) : Running Found := do
  match ← locate path with
  | .file _ content runs =>
    pure (if runs then file path (Encoding.bytewise content) else denied)
  | .folder _ | .null => pure denied
  | _ =>
    let name := (Path.fileName? path).getD []
    let place := path.take (path.length - name.length - 1)
    pure (if systemPlaces.any (· = place) && isProgram name then utility name else missing)

/-- What is found in the first of some directories that has it. -/
def among (name : Text) : List Text → Running Found
  | [] => pure missing
  | place :: places => do
    match ← atPath (Path.join place name) with
    | .file path content => pure (file path content)
    | .utility name => pure (utility name)
    | _ => among name places

/-- What a command names that is no function and no command of the shell. -/
def ofName (name : Text) : Running Found := do
  if name.any (· = '/') then atPath name
  else among name (Text.splitOn ':' ((← value? "PATH".toList).getD []))

end Found

/-- The program that the first line of a script asks for, and the argument that stands there. -/
def interpreter? (content : Text) : Option (Text × List Text) :=
  match content with
  | '#' :: '!' :: r =>
    let isBlank (c : Char) : Bool := c = ' ' || c = '\t'
    let line := (r.takeWhile (· ≠ '\n')).dropWhile isBlank
    let program := line.takeWhile (!isBlank ·)
    let argument := ((line.drop program.length).dropWhile isBlank).reverse.dropWhile isBlank
    if program.isEmpty then none
    else some (program, if argument.isEmpty then [] else [argument.reverse])
  | _ => none

namespace Run

/-- Commands of the shell that keep what is assigned in front of them. -/
def isSpecial (name : Text) : Bool := Parser.special.contains (String.ofList name)

/-- Signals by number: their names, and what is said of a process that one has ended. -/
def signals : List (Nat × String × String) :=
  [(1, "HUP", "Hangup"), (2, "INT", ""), (3, "QUIT", "Quit"), (4, "ILL", "Illegal instruction"),
    (5, "TRAP", "Trace/breakpoint trap"), (6, "ABRT", "Aborted"), (7, "BUS", "Bus error"),
    (8, "FPE", "Floating point exception"), (9, "KILL", "Killed"),
    (10, "USR1", "User defined signal 1"), (11, "SEGV", "Segmentation fault"),
    (12, "USR2", "User defined signal 2"), (13, "PIPE", ""), (14, "ALRM", "Alarm clock"),
    (15, "TERM", "Terminated"), (16, "16", "Stack fault"), (17, "CHLD", ""), (18, "CONT", ""),
    (19, "STOP", ""), (20, "TSTP", ""), (21, "TTIN", ""), (22, "TTOU", ""), (23, "URG", ""),
    (24, "XCPU", "CPU time limit exceeded"), (25, "XFSZ", "File size limit exceeded"),
    (26, "VTALRM", "Virtual timer expired"), (27, "PROF", "Profiling timer expired"),
    (28, "WINCH", ""), (29, "IO", "I/O possible"), (30, "PWR", "Power failure"),
    (31, "SYS", "Bad system call"), (32, "32", ""), (33, "33", ""), (34, "RTMIN", "")] ++
  (List.range 15).map (fun i => (35 + i, s!"RTMIN+{i + 1}", "")) ++
  (List.range 14).map (fun i => (50 + i, s!"RTMAX-{14 - i}", "")) ++ [(64, "RTMAX", "")]

/-- Signals that end no process. -/
def harmless : List Nat := [17, 18, 23, 28]

/-- The number of a signal. -/
def signal? (t : Text) : Option Nat :=
  match (String.ofList t).toNat? with
  | some n => some n
  | none =>
    let name := if "SIG".toList.isPrefixOf t then t.drop 3 else t
    if name = "EXIT".toList then some 0
    else (signals.find? fun (_, k, _) => k.toList = name).map Prod.fst

/-- A failure of what should end no more than a command becomes its status. -/
def guarded (a : Running Unit) : Running Unit :=
  tryCatch a fun
    | .failed n => setStatus n
    | j => throw j

/-- Gives up where the shell is to end at a command that fails. -/
def checked : Running Unit := do
  let s ← get
  if s.status ≠ 0 && !s.tested && s.flags.any (· = 'e') then throw (.exit s.status)

/-- Runs what may fail. -/
def testing (a : Running Unit) : Running Unit := do
  let before ← get
  set { before with tested := true }
  Running.keeping (fun _ s => { s with tested := before.tested }) a

/-- Opens, copies or closes a descriptor. -/
def redirect (descriptor : Nat) (way : Way) (target : Text) : Running Unit := do
  let connected (i : Nat) : Running Unit :=
    modify fun s => { s with descriptors := s.descriptors.insert descriptor i }
  match way with
  | .here => do connected (← connect (.source target))
  | .copy =>
    if target = ['-'] then
      modify fun s => { s with descriptors := s.descriptors.erase descriptor }
    else match ← channel? (Number.digitsOf 10 target).1 with
      | some i => connected i
      | none => abort (target ++ ": Bad file descriptor".toList)
  | way => do
    match ← openFile way target with
    | .ok i => connected i
    | .error fault =>
      let (verb, absent) : String × String := match way with
        | .read => ("open", "No such file")
        | _ => ("create", "Directory nonexistent")
      let reason := if fault = .missing || fault = .blocked then absent else fault.text
      abort (s!"cannot {verb} ".toList ++ target ++ s!": {reason}".toList)

section

variable (limit : Nat) (self : Command → Running Unit)

def sequence (cs : List Command) : Running Unit := cs.forM self

/-- Runs the lines of a script. -/
def lines : Nat → Reader → Running Unit
  | 0, _ => pure ()
  | n + 1, r => do
    match Parser.line.run r with
    | .error fault => do
      modify fun s => { s with line := fault.line }
      abort ("Syntax error: " ++ fault.text).toList
    | .ok (none, _) => pure ()
    | .ok (some cs, r) => do
      sequence self cs
      lines n r

def script (t : Text) (line : Nat) : Running Unit := lines self (t.length + 1) (.ofText t line)

/-- Runs what is to be run at the end, and keeps the status from before. -/
def atEnd : Running Unit := do
  let s ← get
  match s.traps.get? "EXIT".toList with
  | none => pure ()
  | some action => do
    set { s with traps := s.traps.erase "EXIT".toList }
    script self action s.line
    setStatus s.status

/-- Runs to the end of the shell, whose status is that of the last command or of what ended it. -/
def finished (a : Running Unit) : Running Unit := do
  let settled (a : Running Unit) : Running Unit := tryCatch a fun
    | .exit n | .failed n | .leave n => setStatus n
    | .stop _ | .next _ => pure ()
    | j => throw j
  settled a
  settled (atEnd self)

/-- Runs on a copy of the shell. Of what the copy does, its status, the directory and the channels
stay. -/
def apart (prepare : State → State) (a : Running Unit) : Running Unit := do
  let before ← get
  set (prepare { before with traps := before.traps.filter fun (_, t) => t.isEmpty, loops := 0 })
  Running.keeping (fun _ s => { before with
    directory := s.directory
    channels := s.channels
    status := s.status }) (finished self a)

/-- What commands write. -/
def captured (body : List Command) : Running Text := do
  let i ← connect (.sink [])
  let status := (← get).status
  apart self (fun s => { s with descriptors := s.descriptors.insert 1 i }) (sequence self body)
  modify fun s => { s with captured := s.status, status := status }
  return (← channelAt i).written.filter (· ≠ '\x00')

/-- The text of a word that is not split. -/
def textOf (w : Word) : Running Text := Expansion.textOf (captured self) limit w

/-- Commands whose arguments may be assignments, which are not split. -/
def declaring : List String := ["export", "readonly", "local", "alias"]

/-- The fields of words. -/
def fields (ws : List Word) : Running (List Text) := do
  let declares := ws.head?.any fun w =>
    (Word.bare? w).any fun t => declaring.contains (String.ofList t)
  let all ← ws.mapM fun w =>
    match declares, assignment? w with
    | true, some (name, value) => do
      let t ← textOf limit self value
      pure [name ++ '=' :: t]
    | _, _ => Expansion.fieldsOfWord (captured self) limit w
  pure all.flatten

/-- What redirections name. -/
def targets : List Redirect → Running (List (Nat × Way × Text))
  | [] => pure []
  | .mk descriptor way target :: rs => do
    let t ← textOf limit self target
    if way = .copy && t ≠ ['-'] && !(t.length = 1 && t.all Char.isDigit) then
      abort "Syntax error: Bad fd number".toList
    return (descriptor, way, t) :: (← targets rs)

/-- Runs with redirections, which are undone at the end unless they are to stay. Where one cannot be
made, nothing is run. -/
def redirecting (stays : Bool) (rs : List Redirect) (a : Running Unit) : Running Unit := do
  let named ← targets limit self rs
  let open' : Running Unit := named.forM fun (descriptor, way, t) => redirect descriptor way t
  if stays then do
    open'
    a
  else Running.keeping (fun before s => { s with descriptors := before.descriptors }) do
    let opened ← tryCatch (do open'; pure true) fun
      | .failed n => do
        setStatus n
        pure false
      | j => throw j
    if opened then a

/-- Makes assignments from the left, and gives the values. -/
def assignments (exported : Bool) : List (Text × Word) → Running (List (Text × Text))
  | [] => pure []
  | (name, w) :: rest => do
    let t ← textOf limit self w
    assign name t
    if exported then setVariable name ⟨some t, true, false⟩
    return (name, t) :: (← assignments exported rest)

/-- Runs with variables that have their values from before at the end. -/
def restoring (names : List Text) (a : Running Unit) : Running Unit := do
  let before := (← get).bindings
  Running.keeping (fun _ s => { s with
    bindings := names.foldl (fun vs name =>
      match before.get? name with
      | some v => vs.insert name v
      | none => vs.erase name) s.bindings }) a

/-- How many functions may run inside one another. -/
def maxFunctions : Nat := 1000

/-- Runs the body of a function. -/
def callFunction (body : Command) (args : List Text) : Running Unit := do
  let before ← get
  if maxFunctions ≤ before.locals.length then
    abort s!"Maximum function recursion depth ({maxFunctions}) reached".toList
  set { before with arguments := args, loops := 0, locals := [] :: before.locals }
  Running.keeping (fun _ s =>
    let bindings := (s.locals.headD []).foldl (fun vs (name, v) =>
      match v with
      | some v => vs.insert name v
      | none => vs.erase name) s.bindings
    { s with
      arguments := before.arguments
      loops := before.loops
      bindings := bindings
      locals := s.locals.tail }) <|
    tryCatch (self body) fun
      | .leave n => setStatus n
      | j => throw j

/-- What a shell knows from its start unless something else is exported: where programs are, and
what it asks and shows. -/
def defaults : List (String × String) :=
  [("PATH", "/usr/local/sbin:/usr/local/bin:/usr/sbin:/usr/bin:/sbin:/bin"), ("PS1", "# "),
    ("PS2", "> "), ("PS4", "+ ")]

/-- What a shell knows from its start, whatever is exported: what fields are split at, and which
argument `getopts` is to read. -/
def resets : List (String × String) := [("IFS", " \t\n"), ("OPTIND", "1")]

/-- What a shell of its own knows of variables, in the directory where it is. -/
def childVariables (path : Text) (vs : Entries Text Variable) : Entries Text Variable :=
  let kept : Entries Text Variable := vs.filter fun (_, v) => v.exported
  let kept := defaults.foldl (fun vs (name, t) =>
    if vs.has name.toList then vs else vs.insert name.toList ⟨some t.toList, false, false⟩) kept
  resets.foldl (fun vs (name, t) =>
    let exported := (vs.get? name.toList).any Variable.exported
    vs.insert name.toList ⟨some t.toList, exported, false⟩)
    (kept.insert "PWD".toList ⟨some path, true, false⟩)

/-- Runs a script in a shell of its own, which knows what is exported. -/
def child (name : Text) (args : List Text) (flags : Text) (body : Text) : Running Unit := do
  let ⟨process, awaited⟩ : Nat × Bool := ((← get).process + 1, (← get).awaited)
  tryCatch
    (apart self (fun s => { s with
        bindings := childVariables s.path s.bindings
        functions := []
        arguments := args
        name := name
        status := 0
        flags := flags
        line := 1
        caller := none
        locals := []
        tested := false
        process := process
        awaited := true
        jobs := []
        optionOffset := 0 })
      (script self body 1))
    fun
      | .killed p n =>
        if p = process && awaited then do
          let said := ((signals.find? (·.1 = n)).map (·.2.2)).getD ""
          if said ≠ "" then err (said ++ "\n").toList
          setStatus (128 + n)
        else throw (.killed p n)
      | j => throw j

/-- The letters of options that a shell is started with, and the arguments after them. -/
def shellOptions : Nat → List Text → Text × List Text
  | _ + 1, ('-' :: '-' :: []) :: args => ([], args)
  | n + 1, ('-' :: c :: r) :: args =>
    let (letters, rest) := shellOptions n args
    (c :: r ++ letters, rest)
  | _, args => ([], args)

/-- Starts a shell with arguments. -/
def shell (name : Text) (args : List Text) : Running Unit := do
  let (letters, args) := shellOptions args.length args
  let flags := letters.filter fun c => c ≠ 'c' && c ≠ 's'
  if letters.any (· = 'c') then
    match args with
    | [] => do
      err (name ++ ": 0: -c requires an argument\n".toList)
      setStatus 2
    | [body] => child self name [] flags body
    | body :: name :: args => child self name args flags body
  else match args with
    | [] => do
      let body := (← pending 0).getD []
      consume 0 body.length
      child self name [] flags body
    | path :: rest =>
      if letters.any (· = 's') then do
        let body := (← pending 0).getD []
        consume 0 body.length
        child self name args flags body
      else match ← locate path with
        | .file _ content _ => child self path rest flags (Encoding.bytewise content)
        | _ => do
          err (name ++ ": 0: cannot open ".toList ++ path ++ ": No such file\n".toList)
          setStatus 2

end

end Run
end Stencil.Shell
