import Stencil.Shell.Run

/-! The commands of the shell: what each runs, and how it goes on. -/
namespace Stencil.Shell

open Running

namespace Run

section

variable (limit : Nat) (self : Command → Running Unit)

/-! ### Programs -/

/-- Changes the exported variables for something that is run. -/
def withVariables (f : Entries Text Variable → Entries Text Variable) (a : Running Unit) :
    Running Unit := do
  let before := (← get).bindings
  modify fun s => { s with bindings := f before }
  Running.keeping (fun _ s => { s with bindings := before }) a

/-- The variables that are exported, line by line. -/
def listVariables (ending : Char) : Running Unit := do
  for (name, v) in (← get).bindings do
    if v.exported then out (name ++ '=' :: v.value.getD [] ++ [ending])
  setStatus 0

/-- Whether a text is a span of time, and not a name. -/
def isSpan (t : Text) : Bool := (Utility.seconds? t).any fun x => 0 ≤ x

/-- Whether a program does nothing but wait for longer than a span of time. -/
def outlasts (span name : Text) (args : List Text) : Bool :=
  let limit := (Utility.seconds? span).getD 0
  name = "sleep".toList && 0 < limit && limit < (args.filterMap Utility.seconds?).foldl (· + ·) 0

mutual

/-- Runs a program with arguments, through as many others as are allowed. -/
def launch : Nat → Text → List Text → Running Unit
  | 0, _, _ => throw .exhausted
  | n + 1, name, args => do
    match ← Found.ofName name with
    | .missing => do
      complain (name ++ ": not found".toList)
      setStatus 127
    | .denied => do
      complain (name ++ ": Permission denied".toList)
      setStatus 126
    | .utility key => launchUtility n name key args
    | .file path content =>
      match interpreter? content with
      | none => child self path args [] content
      | some (program, given) => launch n program (given ++ path :: args)

/-- Runs a program for another one, which complains where it cannot be run. -/
def launchFor : Nat → Text → Text → List Text → Running Unit
  | 0, _, _, _ => throw .exhausted
  | n + 1, complaint, name, args => do
    match ← Found.ofName name with
    | .missing => do
      err (complaint ++ ": No such file or directory\n".toList)
      setStatus 127
    | .denied => do
      err (complaint ++ ": Permission denied\n".toList)
      setStatus 126
    | _ => launch n name args

/-- Runs a program outside the working directory, under the name by which it is called. -/
def launchUtility : Nat → Text → Text → List Text → Running Unit
  | 0, _, _, _ => throw .exhausted
  | n + 1, called, key, args => do
    let own (a : Running Nat) : Running Unit :=
      apart self (fun s => { s with traps := [], caller := some called }) do setStatus (← a)
    let front (t : Text) : Text := called ++ ": ".toList ++ t
    let named (name : Text) : Text := front (Utility.enclosed name)
    match String.ofList key with
    | "sh" | "dash" | "bash" => shell self called args
    | "env" => launchWith n called args
    | "xargs" => own (Utility.xargs (fun name args => launchFor n (front name) name args) args)
    | "find" => own (Utility.find (fun name args => launchFor n (named name) name args) args)
    | "which" => own do
      let o : Utility.Options := ⟨"which", "as", "", [], 2⟩
      let g ← o.read args
      let mut status := 0
      for name in g.operands do
        match ← Found.ofName name with
        | .file path _ => out (path ++ ['\n'])
        | .utility key =>
          let folders := if g.has 'a' then Found.systemPlaces else Found.systemPlaces.take 1
          for folder in folders do
            out (if name.any (· = '/') then name ++ ['\n'] else Path.join folder key ++ ['\n'])
        | _ => status := 1
      pure status
    | "nohup" => own do
      let o : Utility.Options := ⟨"nohup", "", "", [], 125⟩
      match (← o.readFront args).operands with
      | [] => o.misused "missing operand".toList
      | name :: args => do
        launchFor n (front ("failed to run command ".toList ++ Utility.enclosed name)) name args
        return (← get).status
    | "setsid" => own do
      let o : Utility.Options := ⟨"setsid", "cfw", "", [], 1⟩
      match (← o.readFront args).operands with
      | [] => o.misused "no command specified".toList
      | name :: args => do
        launchFor n (front ("failed to execute ".toList ++ name)) name args
        return (← get).status
    | "nice" => own do
      let o : Utility.Options := ⟨"nice", "", "n", [("adjustment", 'n')], 125⟩
      let isLevel (a : Text) : Bool := match a with
        | '-' :: c :: _ => c.isDigit
        | _ => false
      match (← o.readFront (args.dropWhile isLevel)).operands with
      | [] => do
        out "0\n".toList
        pure 0
      | name :: args => do
        launchFor n (named name) name args
        return (← get).status
    | "timeout" => own do
      let o : Utility.Options := ⟨"timeout", "vfp", "ks", [("signal", 's'), ("kill-after", 'k'),
        ("preserve-status", 'p'), ("foreground", 'f'), ("verbose", 'v')], 125⟩
      let g ← o.readFront args
      match g.operands with
      | span :: name :: args => do
        if !isSpan span then
          o.misused ("invalid time interval ".toList ++ Utility.enclosed span)
        if outlasts span name args then
          if g.has 'p' then return 143
          else return (if g.values 's' = ["KILL".toList] then 137 else 124)
        launchFor n (front ("failed to run command ".toList ++ Utility.enclosed name)) name args
        return (← get).status
      | _ => do
        err ("Try '".toList ++ called ++ " --help' for more information.\n".toList)
        pure 125
    | _ =>
      match Utility.run? key args with
      | some a => own a
      | none => do
        complain (called ++ ": not found".toList)
        setStatus 127

/-- Runs a program with some variables, or lists all that are exported. -/
def launchWith : Nat → Text → List Text → Running Unit
  | 0, _, _ => throw .exhausted
  | n + 1, called, args => do
    let o : Utility.Options := ⟨"env", "i0v", "uCS", [("ignore-environment", 'i'), ("unset", 'u'),
      ("null", '0'), ("chdir", 'C'), ("split-string", 'S')], 125⟩
    let path : Variable := ⟨some "/bin:/usr/bin".toList, false, false⟩
    apart self (fun s => { s with traps := [], caller := some called }) do
      let g ← o.readFront args
      let (bare, rest) : Bool × List Text := match g.operands with
        | ['-'] :: rest => (true, rest)
        | rest => (g.has 'i', rest)
      let given := rest.takeWhile fun a => a.any (· = '=')
      let changed (vs : Entries Text Variable) : Entries Text Variable :=
        let vs : Entries Text Variable := if bare then [("PATH".toList, path)] else vs
        let vs := (g.values 'u').foldl (fun vs name => Entries.erase name vs) vs
        given.foldl (fun vs a =>
          match Text.cutAt? '=' a with
          | some (name, t) => vs.insert name ⟨some t, true, false⟩
          | none => vs) vs
      if let some folder := g.value? 'C' then
        match ← locate folder with
        | .folder names =>
          modify fun s => { s with place := .folder names }
          modify fun s => { s with path := Builtin.walked s.path s.place }
        | _ => do
          Utility.refuse "env" 125 ("cannot change directory to ".toList ++
            Utility.enclosed folder ++ ": No such file or directory".toList)
      let words := (((g.value? 'S').map (Text.splitOn ' ')).getD []).filter (!List.isEmpty ·)
      match words ++ rest.drop given.length with
      | [] => withVariables changed (listVariables (if g.has '0' then '\x00' else '\n'))
      | name :: args =>
        withVariables changed
          (launchFor n (called ++ ": ".toList ++ Utility.enclosed name) name args)

end

/-! ### Commands of the shell itself that run others -/

/-- What a name means, in a sentence or as it would be called. -/
def describe (spoken : Bool) (name : Text) : Running Bool := do
  let said (t : Text) (short : Text) : Running Bool := do
    out ((if spoken then name ++ t else short) ++ ['\n'])
    pure true
  if Token.keywords.contains (String.ofList name) then said " is a shell keyword".toList name
  else if isSpecial name then said " is a special shell builtin".toList name
  else if (← get).functions.has name then said " is a shell function".toList name
  else if (Builtin.run? name []).isSome || name = "command".toList || name = "type".toList ||
      name = "kill".toList then
    said " is a shell builtin".toList name
  else match ← Found.ofName name with
    | .file path _ => said (" is ".toList ++ path) path
    | .utility _ =>
      let path := if name.any (· = '/') then name else "/usr/bin/".toList ++ name
      said (" is ".toList ++ path) path
    | _ => do
      if spoken then out (name ++ ": not found\n".toList)
      pure false

/-- Writes the names of all signals, or the name of the one that a number or a status stands for. -/
def nameSignals (args : List Text) : Running Nat := do
  match args with
  | [] => do
    out "0\n".toList
    for (_, name, _) in signals do out (name ++ "\n").toList
  | t :: _ => do
    let n ← Builtin.natural t
    match signals.find? (·.1 = if n > 128 then n - 128 else n) with
    | some (_, name, _) => out (name ++ "\n").toList
    | none => abort ("invalid signal number or exit status: ".toList ++ t)
  pure 0

/-- Sends a signal to processes, of which only the shell and what it has started are there. -/
def send (signal : Nat) (targets : List Text) : Running Nat := do
  if targets.isEmpty then
    abort ("Usage: kill [-s sigspec | -signum | -sigspec] [pid | job]... or\n" ++
      "kill -l [exitstatus]").toList
  let mut status := 0
  for target in targets do
    if target.head? = some '%' then abort ("No such job: ".toList ++ target)
    let s ← get
    let p ← Builtin.natural target
    if p = s.process || p = 0 then
      if signal ≠ 0 && !harmless.contains signal then
        let name := ((signals.find? (·.1 = signal)).map (·.2.1.toList)).getD []
        match s.traps.get? name with
        | some action =>
          if signal ≠ 9 then script self action s.line else throw (.killed s.process signal)
        | none => throw (.killed s.process signal)
    else if !s.jobs.has p then do
      complain "No such process\n".toList
      status := 1
  pure status

/-- Sends the signal that is named first, or names signals. -/
def kill (args : List Text) : Running Nat := do
  match args with
  | ['-', 'l'] :: rest => nameSignals rest
  | [['-', 's']] => abort "No arg for -s option".toList
  | ['-', 's'] :: name :: rest =>
    match signal? name with
    | some n => send self n rest
    | none => abort ("invalid signal number or name: ".toList ++ name)
  | ['-', '-'] :: rest => send self 15 rest
  | ('-' :: name) :: rest =>
    match signal? name with
    | some n => send self n rest
    | none => abort ("Illegal option -".toList ++ name.take 1)
  | rest => send self 15 rest

/-- How many levels an argument asks for. -/
def levels (args : List Text) : Running Nat := do
  match args with
  | [] => pure 1
  | t :: _ => do
    let n ← Builtin.natural t
    if n = 0 then abort ("Illegal number: ".toList ++ t) else pure n

/-- The status that an argument asks for, or the last one. -/
def givenStatus (args : List Text) : Running Nat := do
  match args with
  | [] => return (← get).status
  | t :: _ => return (← Builtin.natural t) % 256

/-- Runs the script of a file. -/
def source (args : List Text) : Running Unit := do
  match args with
  | [] => setStatus 0
  | path :: _ => do
    let body ← if path.any (· = '/') then do
        match ← locate path with
          | .file _ content _ => pure (Encoding.bytewise content)
          | .folder _ | .null => pure []
          | _ => abort ("cannot open ".toList ++ path ++ ": No such file".toList)
      else match ← Found.ofName path with
        | .file _ content => pure content
        | _ => abort (path ++ ": not found".toList)
    let before ← get
    set { before with caller := none, status := 0 }
    Running.keeping (fun _ s => { s with caller := before.caller, line := before.line }) <|
      tryCatch (script self body 1) fun
        | .leave n => setStatus n
        | j => throw j

/-- What a command of the shell itself does that runs others or ends something, if there is one of
that name. -/
def control? (name : Text) (args : List Text) : Option (Running Unit) :=
  match String.ofList name with
  | "eval" => some do
    setStatus 0
    script self (Text.join [' '] args) (← get).line
  | "." => some (source self args)
  | "exit" => some do throw (.exit (← givenStatus args))
  | "return" => some do throw (.leave (← givenStatus args))
  | "break" => some do
    let n ← levels args
    let s ← get
    if s.loops = 0 then setStatus 0 else throw (.stop (min n s.loops))
  | "continue" => some do
    let n ← levels args
    let s ← get
    if s.loops = 0 then setStatus 0 else throw (.next (min n s.loops))
  | "exec" => some do
    match args with
    | [] => setStatus 0
    | name :: args => do
      launch self limit name args
      throw (.exit (← get).status)
  | "kill" => some do setStatus (← kill self args)
  | "type" => some do
    setStatus 0
    for name in args do
      if !(← describe true name) then setStatus 127
  | _ => none

/-- Runs a command of the shell itself. -/
def runBuiltin (name : Text) (a : Running Unit) : Running Unit := do
  let before ← get
  set { before with caller := some name }
  Running.keeping (fun _ s => { s with caller := before.caller }) a

/-- Says that output could not be written. -/
def reporting (name : Text) (a : Running Nat) : Running Unit := do
  setStatus (← a)
  if name = "echo".toList || name = "printf".toList || name = "pwd".toList then
    if (← channel? 1).isNone then
      complain (name ++ ": I/O error".toList)
      setStatus 1

/-- Runs what a name means that is no function. -/
def runNamed : Nat → Text → List Text → Running Unit
  | 0, _, _ => throw .exhausted
  | n + 1, name, args =>
    match control? limit self name args with
    | some a => runBuiltin name a
    | none =>
      if name = "command".toList then
        match args with
        | ['-', 'v'] :: name :: _ => runBuiltin "command".toList do
          setStatus (if ← describe false name then 0 else 127)
        | ['-', 'V'] :: name :: _ => runBuiltin "command".toList do
          setStatus (if ← describe true name then 0 else 127)
        | ['-', 'p'] :: name :: args | ['-', '-'] :: name :: args => guarded (runNamed n name args)
        | name :: args => guarded (runNamed n name args)
        | [] => setStatus 0
      else match Builtin.run? name args with
        | some a => runBuiltin name (reporting name a)
        | none => launch self limit name args

/-- Runs a command of words. -/
def simple (line : Nat) (values : List (Text × Word)) (words : List Word) (rs : List Redirect) :
    Running Unit := do
  modify fun s => { s with line := line, captured := 0 }
  let args ← fields limit self words
  let trace (values : List (Text × Text)) : Running Unit := do
    if ← hasFlag 'x' then
      let shown := values.map (fun (name, t) => name ++ '=' :: t) ++ args
      err ((← value? "PS4".toList).getD "+ ".toList ++ Text.join [' '] shown ++ ['\n'])
  match args with
  | [] => do
    setStatus 0
    let mut failed := false
    if !rs.isEmpty then
      redirecting limit self false rs (pure ())
      failed := (← get).status ≠ 0
    if !failed then
      trace (← assignments limit self false values)
      setStatus (← get).captured
  | name :: rest =>
    let body? := (← get).functions.get? name
    let special := isSpecial name
    let run : Running Unit := do
      if special then do
        trace (← assignments limit self false values)
        runNamed limit self limit name rest
      else restoring (values.map Prod.fst) do
        trace (← assignments limit self true values)
        match body? with
        | some body => callFunction self body rest
        | none => guarded (runNamed limit self limit name rest)
    if special then redirecting limit self (name = "exec".toList) rs run
    else redirecting limit self false rs run
  checked

/-! ### Commands of commands -/

/-- Runs the stages of a pipe, of which the first reads a channel if one is given. -/
def stages (input : Option Nat) : List Command → Running Unit
  | [] => pure ()
  | [c] => apart self (attached input none) (self c)
  | c :: cs => do
    let i ← connect (.sink [])
    apart self (attached input (some i)) (self c)
    setChannel i (.source (← channelAt i).written)
    stages (some i) cs
where
  attached (input output : Option Nat) (s : State) : State :=
    let ds := input.elim s.descriptors fun i => s.descriptors.insert 0 i
    { s with descriptors := output.elim ds fun i => ds.insert 1 i }

/-- Runs the body of a loop, and says whether the loop goes on. -/
def iterate (body : List Command) : Running Bool :=
  tryCatch (do sequence self body; pure true) fun
    | .stop n => if n ≤ 1 then pure false else throw (.stop (n - 1))
    | .next n => if n ≤ 1 then pure true else throw (.next (n - 1))
    | j => throw j

/-- Repeats the body while the condition gives what is wanted, as often as is allowed. -/
def repeating (wanted : Bool) (condition body : List Command) : Nat → Nat → Running Unit
  | 0, _ => throw .exhausted
  | n + 1, status => do
    let goes ← tryCatch (do testing (sequence self condition); pure none) fun
      | .stop n => if n ≤ 1 then pure (some false) else throw (.stop (n - 1))
      | .next n => if n ≤ 1 then pure (some true) else throw (.next (n - 1))
      | j => throw j
    match goes with
    | some false => setStatus status
    | some true => repeating wanted condition body n status
    | none =>
      if ((← get).status = 0) = wanted then
        if ← iterate self body then repeating wanted condition body n (← get).status
        else pure ()
      else setStatus status

/-- Runs the body for each of some values. -/
def forEach (name : Text) (body : List Command) : List Text → Running Unit
  | [] => pure ()
  | t :: ts => do
    assign name t
    if ← iterate self body then forEach name body ts

/-- Runs as a loop. -/
def looping (a : Running Unit) : Running Unit := do
  modify fun s => { s with loops := s.loops + 1 }
  Running.keeping (fun _ s => { s with loops := s.loops - 1 }) a

/-- The first arm whose pattern the subject fits. -/
def chosen (subject : Text) : List (List Word × List Command) → Running (List Command)
  | [] => pure []
  | (patterns, body) :: arms => do
    let fits (w : Word) : Running Bool := do
      let ps ← Expansion.fillWord (captured self) false limit w
      pure ((Pattern.ofList (Piece.glyphs ps)).fits subject)
    if ← patterns.anyM fits then pure body else chosen subject arms

/-- The arm of the first condition that holds. -/
def branch (otherwise : List Command) :
    List (List Command × List Command) → Running (List Command)
  | [] => pure otherwise
  | (condition, body) :: arms => do
    testing (sequence self condition)
    if (← get).status = 0 then pure body else branch otherwise arms

/-- Runs a command, given how the commands inside it are run. -/
def step (c : Command) : Running Unit := do
  match c with
  | .simple line values words rs => simple limit self line values words rs
  | .pipe false cs => do
    stages self none cs
    checked
  | .pipe true cs => do
    testing (match cs with
      | [c] => self c
      | cs => stages self none cs)
    modify fun s => { s with status := if s.status = 0 then 1 else 0 }
  | .both a b => do
    testing (self a)
    if (← get).status = 0 then self b
  | .either a b => do
    testing (self a)
    if (← get).status ≠ 0 then self b
  | .background body => do
    let i ← connect .nothing
    apart self (fun s => { s with descriptors := s.descriptors.insert 0 i }) (self body)
    let s ← get
    let number := s.process + 1000 + s.jobs.length
    setVariable ['!'] ⟨some (digits number), false, false⟩
    modify fun s => { s with jobs := s.jobs.insert number s.status, status := 0 }
  | .group body => sequence self body
  | .subshell line body => do
    modify fun s => { s with line := line }
    apart self id (sequence self body)
    checked
  | .branch arms otherwise => do
    let body ← branch self otherwise arms
    setStatus 0
    sequence self body
  | .loop wanted condition body =>
    looping (repeating self wanted condition body limit 0)
  | .each line name words body => do
    modify fun s => { s with line := line }
    let values ← fields limit self words
    setStatus 0
    looping (forEach self name body values)
  | .choice line subject arms => do
    modify fun s => { s with line := line }
    let t ← textOf limit self subject
    let body ← chosen limit self t arms
    setStatus 0
    sequence self body
  | .define name body => do
    modify fun s => { s with functions := s.functions.insert name body }
    setStatus 0
  | .redirected line body rs => do
    modify fun s => { s with line := line }
    redirecting limit self false rs (self body)
    checked

end

/-- Runs a command in which commands stand as deep as is allowed. -/
def run : Nat → Command → Running Unit
  | 0, _ => throw .exhausted
  | n + 1, c => step n (run n) c

end Run
end Stencil.Shell
