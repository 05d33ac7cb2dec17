import Stencil.Shell.Condition
import Stencil.Shell.Expansion
import Stencil.Shell.Format

/-! The commands of the shell itself that run no other commands. Each gives a status. -/
namespace Stencil.Shell.Builtin

open Running

/-- The letters of options at the front of arguments, with their values, and the other arguments.
Letters before a colon in `known` take a value. -/
def options (known : Text) : Nat → List Text → Running (List (Char × Text) × List Text)
  | 0, args => pure ([], args)
  | _ + 1, [] => pure ([], [])
  | n + 1, arg :: args => do
    match arg with
    | ['-', '-'] => pure ([], args)
    | '-' :: c :: r =>
      if c = ':' || !known.any (· = c) then abort ("Illegal option -".toList ++ [c])
      else if (known.dropWhile (· ≠ c)).tail.head? = some ':' then
        match r, args with
        | [], [] => abort ("No arg for -".toList ++ c :: " option".toList)
        | [], value :: args => do
          let (os, rest) ← options known n args
          pure ((c, value) :: os, rest)
        | value, args => do
          let (os, rest) ← options known n args
          pure ((c, value) :: os, rest)
      else do
        let (os, rest) ← options known n (if r.isEmpty then args else ('-' :: r) :: args)
        pure ((c, []) :: os, rest)
    | _ => pure ([], arg :: args)

def optionsOf (known : String) (args : List Text) :
    Running (List (Char × Text) × List Text) :=
  options known.toList (args.flatten.length + args.length) args

/-- The natural number that a text writes. -/
def natural (t : Text) : Running Nat :=
  match Number.read? false t with
  | some n =>
    if 0 ≤ n && n ≤ 2147483647 then pure n.toNat else abort ("Illegal number: ".toList ++ t)
  | none => abort ("Illegal number: ".toList ++ t)

/-- A text between quotation marks. -/
def quoted (t : Text) : Text := '\'' :: t.replace ['\''] "'\"'\"'".toList ++ ['\'']

/-! ### Output -/

def printf (args : List Text) : Running Nat := do
  let (_, args) ← optionsOf "" args
  match args with
  | [] => abort "usage: printf format [arg ...]".toList
  | t :: args =>
    let finish (p : Format.Printing) : Running Unit := do
      for line in p.complaints.reverse do complain line
      out p.pieces.reverse.flatten
    match Format.print t args with
    | .ok p => do
      finish p
      pure (if p.complaints.isEmpty then 0 else 1)
    | .error (reason, p) => do
      for line in p.complaints.reverse do complain line
      complain reason
      out p.pieces.reverse.flatten
      throw (.failed 2)

/-! ### Variables -/

/-- A name with the value that is given to it, if one is. -/
def declared (t : Text) : Running (Text × Option Text) := do
  let (name, value) : Text × Option Text := match Text.cutAt? '=' t with
    | some (name, value) => (name, some value)
    | none => (t, none)
  if isName name then pure (name, value) else abort (name ++ ": bad variable name".toList)

/-- Marks variables, or lists those that are marked. -/
def declare (command : Text) (marked : Variable → Bool) (mark : Variable → Variable)
    (args : List Text) : Running Nat := do
  let (_, args) ← optionsOf "p" args
  if args.isEmpty then
    let shown := (← get).bindings.filter fun (_, v) => marked v
    let lines := shown.map fun (name, v) =>
      command ++ ' ' :: name ++ v.value.elim [] (fun t => '=' :: quoted t) ++ ['\n']
    out (Expansion.sorted lines).flatten
  for arg in args do
    let (name, value) ← declared arg
    if let some value := value then assign name value
    setVariable name (mark ((← binding? name).getD ⟨none, false, false⟩))
  pure 0

def export' (args : List Text) : Running Nat :=
  declare "export".toList (·.exported) (fun v => { v with exported := true }) args

def readonly (args : List Text) : Running Nat :=
  declare "readonly".toList (·.fixed) (fun v => { v with fixed := true }) args

def unset (args : List Text) : Running Nat := do
  let (os, names) ← optionsOf "vf" args
  for name in names do
    if os.any (·.1 = 'f') then
      modify fun s => { s with functions := s.functions.erase name }
    else do
      let (name, _) ← declared name
      if name = "OPTIND".toList then abort "Illegal number: ".toList
      match ← binding? name with
      | some v =>
        if v.fixed then abort (name ++ ": is read only".toList)
        modify fun s => { s with bindings := s.bindings.erase name }
      | none =>
        if os.isEmpty then modify fun s => { s with functions := s.functions.erase name }
  pure 0

/-- Makes variables those of the running function. -/
def localize (args : List Text) : Running Nat := do
  for arg in args do
    match (← get).locals with
    | [] => abort "not in a function".toList
    | saved :: outer => do
      let (name, value) ← declared arg
      if !saved.has name then
        let before ← binding? name
        modify fun s => { s with locals := saved.insert name before :: outer }
      if let some value := value then assign name value
      else if (← binding? name).isNone then setVariable name ⟨none, false, false⟩
  if args.isEmpty && (← get).locals.isEmpty then abort "not in a function".toList
  pure 0

/-! ### Arguments and options -/

/-- The options of the shell: names and letters. -/
def settings : List (String × Char) :=
  [("errexit", 'e'), ("noglob", 'f'), ("ignoreeof", 'I'), ("interactive", 'i'), ("monitor", 'm'),
    ("noexec", 'n'), ("stdin", 's'), ("xtrace", 'x'), ("verbose", 'v'), ("vi", 'V'), ("emacs", 'E'),
    ("noclobber", 'C'), ("allexport", 'a'), ("notify", 'b'), ("nounset", 'u'), ("nolog", '\x00'),
    ("debug", '\x00')]

def setFlag (c : Char) (on : Bool) : Running Unit :=
  modify fun s =>
    let others := s.flags.filter (· ≠ c)
    { s with flags := if on then c :: others else others }

/-- Whether a setting is on, as a line. -/
def settingLine (flags : Text) (setting : String × Char) : Text :=
  let name := setting.1.toList
  name ++ List.replicate (16 - name.length) ' ' ++
    (if flags.any (· = setting.2) then "on".toList else "off".toList) ++ ['\n']

/-- Takes options of the shell, as many as are allowed, and gives the other arguments, if there
are to be any. -/
def takeSettings : Nat → List Text → Running (Option (List Text))
  | 0, args => pure (some args)
  | _ + 1, [] => pure none
  | n + 1, arg :: args => do
    match arg with
    | ['-', '-'] => pure (some args)
    | ['-'] => pure (some args)
    | sign :: 'o' :: [] =>
      if sign ≠ '-' && sign ≠ '+' then pure (some (arg :: args))
      else match args with
        | [] => do
          let s ← get
          out ("Current option settings\n".toList ++ settings.flatMap (settingLine s.flags))
          pure none
        | name :: args =>
          match settings.find? fun (k, _) => k.toList = name with
          | some (_, c) => do
            setFlag c (sign = '-')
            takeSettings n args
          | none => abort ("Illegal option -o ".toList ++ name)
    | sign :: c :: r =>
      if sign ≠ '-' && sign ≠ '+' then pure (some (arg :: args))
      else do
        let letters := c :: r
        match letters.find? fun c => !settings.any (·.2 = c) with
        | some c => abort ("Illegal option ".toList ++ [sign, c])
        | none => do
          for c in letters do setFlag c (sign = '-')
          takeSettings n args
    | _ => pure (some (arg :: args))

def set' (args : List Text) : Running Nat := do
  if args.isEmpty then
    let lines := (← get).bindings.filterMap fun (name, v) =>
      v.value.map fun t => name ++ '=' :: quoted t ++ ['\n']
    out (Expansion.sorted lines).flatten
  else if let some rest ← takeSettings args.length args then
    modify fun s => { s with arguments := rest, optionOffset := 0 }
  pure 0

def shift (args : List Text) : Running Nat := do
  let n ← match args with
    | [] => pure 1
    | t :: _ => natural t
  let s ← get
  if s.arguments.length < n then abort "can't shift that many".toList
  set { s with arguments := s.arguments.drop n }
  pure 0

/-- What `getopts` has found: an option, or nothing more. -/
def getopts (args : List Text) : Running Nat := do
  match args with
  | known :: name :: given =>
    let s ← get
    let given := if given.isEmpty then s.arguments else given
    let next := (((← value? "OPTIND".toList).bind (Number.read? false)).getD 1).toNat
    if given.length + 1 < next then modify fun s => { s with optionOffset := 0 }
    let next := if given.length + 1 < next then 1 else next
    let s ← get
    let index := if s.optionOffset = 0 then next else next - 1
    let silent := known.head? = some ':'
    let assignIndex (i : Nat) : Running Unit := assign "OPTIND".toList (digits i)
    let ended (i : Nat) : Running Nat := do
      modify fun s => { s with optionOffset := 0 }
      assignIndex i
      assign name ['?']
      modify fun s => { s with bindings := s.bindings.erase "OPTARG".toList }
      pure 1
    let offset := if s.optionOffset = 0 then 1 else s.optionOffset
    match given[index - 1]? with
    | none => ended index
    | some arg =>
      if arg = ['-', '-'] && s.optionOffset = 0 then ended (index + 1)
      else if s.optionOffset = 0 && (arg.length < 2 || arg.head? ≠ some '-') then ended index
      else
        let c := arg.getD offset '?'
        let last : Bool := arg.length ≤ offset + 1
        let next (i offset : Nat) : Running Unit := do
          assignIndex i
          modify fun s => { s with optionOffset := offset }
        let step : Running Unit := next (index + 1) (if last then 0 else offset + 1)
        if c = ':' || !known.any (· = c) then do
          step
          if silent then assign "OPTARG".toList [c]
          else do
            modify fun s => { s with bindings := s.bindings.erase "OPTARG".toList }
            err ("Illegal option -".toList ++ c :: ['\n'])
          assign name ['?']
          pure 0
        else if (known.dropWhile (· ≠ c)).tail.head? = some ':' then
          match last, given[index]? with
          | false, _ => do
            assign "OPTARG".toList (arg.drop (offset + 1))
            next (index + 1) 0
            assign name [c]
            pure 0
          | true, some value => do
            assign "OPTARG".toList value
            next (index + 2) 0
            assign name [c]
            pure 0
          | true, none => do
            next (index + 1) 0
            if silent then do
              assign "OPTARG".toList [c]
              assign name [':']
            else do
              modify fun s => { s with bindings := s.bindings.erase "OPTARG".toList }
              err ("No arg for -".toList ++ c :: " option\n".toList)
              assign name ['?']
            pure 0
        else do
          step
          assign "OPTARG".toList []
          assign name [c]
          pure 0
  | _ => abort "Usage: getopts optstring var [arg]".toList

/-! ### Input -/

/-- A line of input whose backslashes have been read: its characters, of which some are protected,
how many characters were read, and whether the line is whole. -/
def readLine (raw : Bool) : Text → List (Char × Bool) × Nat × Bool
  | [] => ([], 0, false)
  | '\n' :: _ => ([], 1, true)
  | '\\' :: r =>
    if raw then
      let (l, n, whole) := readLine raw r
      (('\\', false) :: l, n + 1, whole)
    else match r with
      | [] => ([], 1, false)
      | '\n' :: r =>
        let (l, n, whole) := readLine raw r
        (l, n + 2, whole)
      | c :: r =>
        let (l, n, whole) := readLine raw r
        ((c, true) :: l, n + 2, whole)
  | c :: r =>
    let (l, n, whole) := readLine raw r
    ((c, false) :: l, n + 1, whole)

section

variable (separators : Text)

def separates (p : Char × Bool) : Bool := !p.2 && separators.any (· = p.1)

def blanks (p : Char × Bool) : Bool :=
  separates separators p && (p.1 = ' ' || p.1 = '\t' || p.1 = '\n')

/-- What the last of some variables gets of a line: all but the blanks around it, and but a
separator that only ends the last field. -/
def lastField (l : List (Char × Bool)) : Text :=
  let trimmed := (l.reverse.dropWhile (blanks separators)).reverse
  let kept := match trimmed.reverse with
    | p :: r =>
      let body := (r.dropWhile (blanks separators)).reverse
      if separates separators p && !body.any (separates separators) then body else trimmed
    | [] => []
  kept.map Prod.fst

/-- The fields of a line for so many variables. -/
def lineFields : Nat → List (Char × Bool) → List Text
  | 0, _ => []
  | 1, l => [lastField separators (l.dropWhile (blanks separators))]
  | n + 1, l =>
    let l := l.dropWhile (blanks separators)
    let field := l.takeWhile (!separates separators ·)
    let rest := (l.drop field.length).dropWhile (blanks separators)
    let rest := match rest with
      | p :: r => if separates separators p && !blanks separators p then r else p :: r
      | [] => []
    field.map Prod.fst :: lineFields n rest

end

def read (args : List Text) : Running Nat := do
  let (os, names) ← optionsOf "p:r" args
  if names.isEmpty then abort "arg count".toList
  match ← pending 0 with
  | none => pure 1
  | some t => do
    let (l, n, whole) := readLine (os.any (·.1 = 'r')) t
    consume 0 n
    for (name, value) in names.zip (lineFields (← Expansion.separators) names.length l) do
      if !isName name then abort (name ++ ": bad variable name".toList)
      assign name value
    pure (if whole then 0 else 1)

/-! ### The working directory -/

/-- The way to a place, as it is walked from another. -/
def walked (path : Text) : Directory.Place → Text
  | .folder names =>
    let shown := if names.take 1 = Directory.root then names.drop 1 else Directory.ownName :: names
    '/' :: Text.join ['/'] (shown.map toUtf8)
  | _ => path

def cd (args : List Text) : Running Nat := do
  let (_, args) ← optionsOf "LP" args
  let (target, shown) ← match args with
    | [] => do pure ((← value? "HOME".toList).getD [], false)
    | ['-'] :: _ => do pure ((← value? "OLDPWD".toList).getD [], true)
    | t :: _ => pure (t, false)
  let s ← get
  if target.isEmpty then pure 0
  else match ← locate target with
    | .folder names => go s (.folder names) shown
    | _ => abort ("can't cd to ".toList ++ target)
where
  go (s : State) (place : Directory.Place) (shown : Bool) : Running Nat := do
    let path := walked s.path place
    set { s with place := place, path := path }
    for (name, t) in [("OLDPWD".toList, s.path), ("PWD".toList, path)] do
      assign name t
      setVariable name ⟨some t, true, false⟩
    if shown then out (path ++ ['\n'])
    pure 0

/-! ### Waiting and the rest -/

def wait (args : List Text) : Running Nat := do
  match args with
  | [] => pure 0
  | t :: _ => do
    match (← get).jobs.get? (← natural t) with
    | some n => pure n
    | none => pure 127

/-- The permissions that are left, as letters. -/
def permissions (mask : Nat) : Text :=
  let part (who : Char) (shift : Nat) : Text :=
    let left := 7 - mask / shift % 8
    who :: '=' :: ((if left / 4 = 1 then ['r'] else []) ++
      (if left / 2 % 2 = 1 then ['w'] else []) ++ if left % 2 = 1 then ['x'] else [])
  Text.join [','] [part 'u' 64, part 'g' 8, part 'o' 1]

def umask (args : List Text) : Running Nat := do
  let (os, args) ← optionsOf "S" args
  match args with
  | [] =>
    let mask := (← get).mask
    let ds := Nat.toDigits 8 mask
    out ((if os.isEmpty then List.replicate (4 - ds.length) '0' ++ ds
      else permissions mask) ++ ['\n'])
    pure 0
  | t :: _ =>
    if t.all Format.isOctal then do
      modify fun s => { s with mask := (Number.digitsOf 8 t).1 }
      pure 0
    else abort ("Illegal number: ".toList ++ t)

/-- Sets what is run at a signal or at the end, or lists it. -/
def trap (args : List Text) : Running Nat := do
  let (_, args) ← optionsOf "" args
  let named (t : Text) : Text :=
    let t := if "SIG".toList.isPrefixOf t then t.drop 3 else t
    match String.ofList t with
    | "0" => "EXIT".toList
    | "1" => "HUP".toList
    | "2" => "INT".toList
    | "3" => "QUIT".toList
    | "9" => "KILL".toList
    | "13" => "PIPE".toList
    | "15" => "TERM".toList
    | _ => t
  match args with
  | [] => do
    for (signal, action) in (← get).traps do
      out ("trap -- ".toList ++ quoted action ++ ' ' :: signal ++ ['\n'])
    pure 0
  | [signal] => do
    modify fun s => { s with traps := s.traps.erase (named signal) }
    pure 0
  | action :: signals => do
    for signal in signals do
      if action = ['-'] then modify fun s => { s with traps := s.traps.erase (named signal) }
      else modify fun s => { s with traps := s.traps.insert (named signal) action }
    pure 0

/-- What a command of the shell itself does, if there is one of that name that runs no others. -/
def run? (name : Text) (args : List Text) : Option (Running Nat) :=
  match String.ofList name with
  | "true" | ":" | "hash" | "jobs" | "fg" | "bg" | "alias" | "unalias" => some (pure 0)
  | "false" => some (pure 1)
  | "echo" => some do
    out (Format.echo args)
    pure 0
  | "printf" => some (printf args)
  | "test" => some do return if ← Condition.holds (args.length + 1) args then 0 else 1
  | "[" => some do
    if args.getLast? = some [']'] then
      return if ← Condition.holds (args.length + 1) args.dropLast then 0 else 1
    else abort "missing ]".toList
  | "export" => some (export' args)
  | "readonly" => some (readonly args)
  | "unset" => some (unset args)
  | "local" => some (localize args)
  | "set" => some (set' args)
  | "shift" => some (shift args)
  | "getopts" => some (getopts args)
  | "read" => some (read args)
  | "cd" | "chdir" => some (cd args)
  | "pwd" => some do
    out ((← get).path ++ ['\n'])
    pure 0
  | "wait" => some (wait args)
  | "umask" => some (umask args)
  | "ulimit" => some do
    out "unlimited\n".toList
    pure 0
  | "times" => some do
    out "0m0.000000s 0m0.000000s\n0m0.000000s 0m0.000000s\n".toList
    pure 0
  | "trap" => some (trap args)
  | _ => none

end Stencil.Shell.Builtin
