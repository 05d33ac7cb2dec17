import Stencil.Shell.Utility.Edit.Script
import Stencil.Shell.Utility.Options

/-! The program that edits lines by a script. -/
namespace Stencil.Shell.Utility

open Running

namespace Edit

/-- A line, whether its end was there, and the number and the name of its source. -/
structure Record where
  text : Text
  ended : Bool
  source : Nat
  name : Text

structure Settings where
  silent : Bool
  /-- Whether each source is counted on its own. -/
  separate : Bool
  width : Nat
  mark : Char
  script : Array Instruction

/-- What waits for the end of a cycle. -/
inductive Waiting where
  | text (t : Text)
  | file (path : Text)

/-- What is kept while lines are edited. -/
structure Session where
  rest : List Record
  current : Record
  number : Nat
  /-- The line that is kept aside, and whether it has an end. -/
  held : Text × Bool
  /-- How far the ranges go that have begun, by the numbers of their instructions. -/
  ranges : Entries Nat (Option Nat)
  changed : Bool
  recent : Option Needle
  /-- What waits for the end of the cycle, the last first. -/
  waiting : List Waiting
  /-- What was written, the last first, and whether it lacks the end of its last line. -/
  written : List Text × Bool
  /-- The channels of files that are written. -/
  files : Entries Text Nat
  /-- The lines that are left of files that are read line by line. -/
  read : Entries Text (List Text)

/-- How the instructions for a line end. -/
inductive Ending where
  | ended
  | dropped
  /-- The instructions begin again with what is left. -/
  | again
  | quit (status : Nat) (prints : Bool)

abbrev Editing := StateT Session Running

section

variable (x : Settings)

/-! ### Output -/

def emit (t : Text) (ended : Bool) : Editing Unit :=
  modify fun s =>
    let (pieces, lacks) := s.written
    let pieces := t :: (if lacks then [x.mark] :: pieces else pieces)
    { s with written := (if ended then [x.mark] :: pieces else pieces, !ended) }

/-- Writes what brings its own ends of lines. -/
def emitRaw (t : Text) : Editing Unit := do
  emit x t false
  modify fun s => { s with written := (s.written.1, false) }

def emitLine : Editing Unit := do
  let r := (← get).current
  emit x r.text r.ended

/-- Writes a line to a file. -/
def emitTo (path t : Text) (ended : Bool) : Editing Unit := do
  if path = "/dev/stdout".toList then emit x t ended
  else if let some i := (← get).files.get? path then
    let _ ← putAt i (t ++ if ended then [x.mark] else [])

/-- Writes what has waited. -/
def flush : Editing Unit := do
  let waiting := (← get).waiting.reverse
  modify fun s => { s with waiting := [] }
  for w in waiting do
    match w with
    | .text t => emitRaw x t
    | .file path =>
      match ← source path with
      | .ok t => emitRaw x t
      | .error _ => pure ()

/-- A line as it is spelled out, broken where it gets too wide. -/
def spelledOut (width : Nat) (t : Text) : Text :=
  let sign (c : Char) : Text :=
    match c with
    | '\\' => ['\\', '\\']
    | '\x07' => ['\\', 'a']
    | '\x08' => ['\\', 'b']
    | '\x0c' => ['\\', 'f']
    | '\n' => ['\\', 'n']
    | '\x0d' => ['\\', 'r']
    | '\t' => ['\\', 't']
    | '\x0b' => ['\\', 'v']
    | c => if c < ' ' || '~' < c then '\\' :: octal c.toNat else [c]
  let step (acc : List Text × Nat) (c : Char) : List Text × Nat :=
    let (pieces, column) := acc
    let t := sign c
    if 1 < width && width - 1 < column + t.length then (t :: ['\\', '\n'] :: pieces, t.length)
    else (t :: pieces, column + t.length)
  (t.foldl step ([], 0)).1.reverse.flatten ++ ['$']

/-! ### Lines -/

def isLast : Editing Bool := do
  let s ← get
  match s.rest with
  | [] => pure true
  | r :: _ => pure (x.separate && r.source ≠ s.current.source)

/-- Goes on to the next line, if there is one. -/
def advance : Editing (Option Record) := do
  flush x
  let s ← get
  match s.rest with
  | [] => pure none
  | r :: rest => do
    let fresh := x.separate && r.source ≠ s.current.source
    set { s with
      rest := rest
      current := { s.current with source := r.source, name := r.name }
      number := if fresh then 1 else s.number + 1
      ranges := if fresh then [] else s.ranges }
    pure (some r)

/-! ### Addresses -/

/-- What is searched for: what a needle says, or what was searched for last. -/
def resolved (n : Needle) : Editing Needle := do
  match n.regex, (← get).recent with
  | some _, _ => do
    modify fun s => { s with recent := some n }
    pure n
  | none, some last => pure last
  | none, none => refuse "sed" 1 "-e expression #1, char 0: no previous regular expression".toList

def subjectOf (n : Needle) (t : Text) : Regex.Subject := ⟨t.toArray, n.fold, n.manyLines⟩

def addresses (a : Address) : Editing Bool := do
  let s ← get
  match a with
  | .line n => pure (s.number = n)
  | .every start step =>
    pure (if step = 0 then s.number = start
      else start ≤ s.number && (s.number - start) % step = 0)
  | .last => isLast x
  | .found n => do
    let n ← resolved n
    pure ((Regex.find (subjectOf n s.current.text) (n.regex.getD .empty) 0).isSome)

/-- Whether the lines of a selector have begun that is not in a range. -/
def begins (i : Nat) (start : Address) (stop : Option Bound) : Editing Bool := do
  let n := (← get).number
  let upTo (last : Nat) : Editing Bool := do
    if n < last then modify fun s => { s with ranges := s.ranges.insert i (some last) }
    pure true
  let isLate : Bool := match start, stop with
    | .line a, some (.address (.line b)) => a < n && n ≤ b
    | _, _ => false
  if isLate && !(← get).ranges.has i || (← addresses x start) then
    match stop with
    | none => pure true
    | some (.address (.line b)) => upTo b
    | some (.count k) => upTo (n + k)
    | some (.multiple k) => upTo (if k = 0 then n else (n / k + 1) * k)
    | some (.address _) => do
      modify fun s => { s with ranges := s.ranges.insert i none }
      pure true
  else pure false

/-- Whether an instruction is for the current line. -/
def selects (i : Nat) (r : Selector) : Editing Bool := do
  let leave : Editing Unit := modify fun s => { s with ranges := s.ranges.erase i }
  let within ← match r.start with
    | none => pure true
    | some start => do
      let s ← get
      match s.ranges.get? i, start, r.stop with
      | some (some last), _, _ => do
        if last ≤ s.number then leave
        if s.number ≤ last then pure true else begins x i start r.stop
      | some none, _, some (.address a) => do
        if ← addresses x a then leave
        pure true
      | none, .line 0, some (.address a) => do
        if s.number = 1 then
          if !(← addresses x a) then
            modify fun s => { s with ranges := s.ranges.insert i none }
          pure true
        else pure false
      | _, _, _ => begins x i start r.stop
  pure (within ≠ r.negated)

/-! ### Substitution -/

/-- What a match is replaced by. -/
def replacement (fillings : List Filling) (u : Regex.Subject) (m : Regex.Match) : Text :=
  let textOf (f : Filling) : Text :=
    match f with
    | .text t => t
    | .group 0 => u.slice m.start m.stop
    | .group k =>
      match m.groups.find? (·.1 = k) with
      | some (_, a, b) => u.slice a b
      | none => []
    | .spelled _ => []
  let respell (whole : Spelling) (t : Text) : Text :=
    match whole with
    | .upper => t.map Char.toUpper
    | .lower => t.map Char.toLower
    | _ => t
  let step (acc : List Text × Spelling × Option Spelling) (f : Filling) :
      List Text × Spelling × Option Spelling :=
    let (pieces, whole, once) := acc
    match f with
    | .spelled .upperOnce => (pieces, whole, some .upper)
    | .spelled .lowerOnce => (pieces, whole, some .lower)
    | .spelled s => (pieces, s, once)
    | f =>
      match textOf f, once with
      | [], once => (pieces, whole, once)
      | c :: r, some s => ((respell s [c] ++ respell whole r) :: pieces, whole, none)
      | t, none => (respell whole t :: pieces, whole, none)
  (fillings.foldl step ([], .asIs, none)).1.reverse.flatten

/-- A text with matches replaced, if there are any to replace. -/
def substituted (r : Substitution) (n : Needle) (t : Text) : Option Text :=
  let u := subjectOf n t
  let found := (Regex.findAll u (n.regex.getD .empty)).drop (r.nth - 1)
  let chosen := if r.all then found else found.take 1
  if chosen.isEmpty then none
  else
    let step (acc : List Text × Nat) (m : Regex.Match) : List Text × Nat :=
      (replacement r.fillings u m :: u.slice acc.2 m.start :: acc.1, m.stop)
    let (pieces, last) := chosen.foldl step ([], 0)
    some ((u.slice last u.chars.size :: pieces).reverse.flatten)

/-! ### Instructions -/

def setText (t : Text) : Editing Unit :=
  modify fun s => { s with current := { s.current with text := t } }

/-- Does what an instruction for the current line says that neither ends the cycle nor goes on
somewhere else. -/
def perform (i : Nat) (a : Action) : Editing Unit := do
  let s ← get
  let line := s.current.text
  let front := line.takeWhile (· ≠ '\n')
  match a with
  | .print => emitLine x
  | .printFront => emit x front true
  | .hold => set { s with held := (line, s.current.ended) }
  | .holdMore => set { s with held := (s.held.1 ++ '\n' :: line, s.current.ended) }
  | .recall => set { s with current := { s.current with text := s.held.1, ended := s.held.2 } }
  | .recallMore =>
    set { s with current := { s.current with
      text := line ++ '\n' :: s.held.1
      ended := s.held.2 } }
  | .exchange =>
    set { s with
      held := (line, s.current.ended)
      current := { s.current with text := s.held.1, ended := s.held.2 } }
  | .clear => setText []
  | .number => emitRaw x (digits s.number ++ ['\n'])
  | .name => emitRaw x (s.current.name ++ ['\n'])
  | .spell width => emitRaw x (spelledOut (width.getD x.width) line ++ ['\n'])
  | .append t => set { s with waiting := .text t :: s.waiting }
  | .insert t => emitRaw x t
  | .change t => do
    if !s.ranges.has i then emitRaw x t
  | .read path => set { s with waiting := .file path :: s.waiting }
  | .readLine path => do
    let left ← match s.read.get? path with
      | some ls => pure ls
      | none =>
        match ← source path with
        | .ok t => pure (linesOf t)
        | .error _ => pure []
    match left with
    | [] => pure ()
    | l :: ls =>
      modify fun s => { s with
        read := s.read.insert path ls
        waiting := .text (l ++ ['\n']) :: s.waiting }
  | .write path => emitTo x path line s.current.ended
  | .writeFront path => emitTo x path front true
  | .alter table => do
    let change (c : Char) : Char := ((table.find? (·.1 = c)).map Prod.snd).getD c
    setText (line.map change)
  | .substitute r => do
    let n ← resolved r.needle
    if let some t := substituted r n line then
      setText t
      modify fun s => { s with changed := true }
      if r.prints then emitLine x
      if let some path := r.path then emitTo x path t s.current.ended
  | _ => pure ()

/-- Where a label is. -/
def labelAt? (label : Text) : Option Nat :=
  x.script.toList.findIdx? fun r =>
    match r.action with
    | .label l => l = label
    | _ => false

/-- Follows the instructions from one on, as many as are allowed. -/
def follow : Nat → Nat → Editing Ending
  | 0, _ => throw .exhausted
  | n + 1, i => do
    match x.script[i]? with
    | none => pure .ended
    | some r =>
      if !(← selects x i r.selector) then
        match r.action with
        | .block stop => follow n stop
        | _ => follow n (i + 1)
      else
        let s ← get
        let go (label : Text) : Nat :=
          if label.isEmpty then x.script.size else (labelAt? x label).getD x.script.size
        match r.action with
        | .delete => pure .dropped
        | .deleteFront =>
          match Text.cutAt? '\n' s.current.text with
          | none => pure .dropped
          | some (_, t) => do
            setText t
            pure .again
        | .next =>
          if s.rest.isEmpty then pure (.quit 0 true)
          else do
            if !x.silent then emitLine x
            if let some r ← advance x then
              modify fun s => { s with
                current := { s.current with text := r.text, ended := r.ended } }
            follow n (i + 1)
        | .join =>
          if s.rest.isEmpty then pure (.quit 0 true)
          else do
            if let some r ← advance x then
              modify fun s => { s with
                current := { s.current with
                  text := s.current.text ++ x.mark :: r.text
                  ended := r.ended } }
            follow n (i + 1)
        | .quit status prints => pure (.quit status prints)
        | .change _ => do
          perform x i r.action
          pure .dropped
        | .jump .always label => follow n (go label)
        | .jump .changed label => do
          set { s with changed := false }
          follow n (if s.changed then go label else i + 1)
        | .jump .unchanged label => do
          set { s with changed := false }
          follow n (if s.changed then i + 1 else go label)
        | a => do
          perform x i a
          follow n (i + 1)

/-- Edits line after line, as many as are allowed, and gives the status. -/
def cycles : Nat → Bool → Editing Nat
  | 0, _ => throw .exhausted
  | n + 1, reads => do
    let goes ← if reads then do
        match ← advance x with
        | none => pure false
        | some r => do
          modify fun s => { s with
            current := { s.current with text := r.text, ended := r.ended }
            changed := false }
          pure true
      else pure true
    if !goes then pure 0
    else match ← follow x 1000000 0 with
      | .ended => do
        if !x.silent then emitLine x
        flush x
        cycles n true
      | .dropped => do
        flush x
        cycles n true
      | .again => do
        flush x
        cycles n false
      | .quit status prints => do
        if prints then
          if !x.silent then emitLine x
          flush x
        pure status

end

/-- The lines of a source. -/
def recordsOf (mark : Char) (number : Nat) (name t : Text) : List Record :=
  let ls := Text.splitOn mark t
  let whole := ls.dropLast.map fun l => ⟨l, true, number, name⟩
  match ls.getLast? with
  | some (c :: r) => whole ++ [⟨c :: r, false, number, name⟩]
  | _ => whole

/-- The files that a script writes. -/
def outputsOf (script : Array Instruction) : List Text :=
  script.toList.filterMap fun r =>
    match r.action with
    | .write path | .writeFront path => some path
    | .substitute r => r.path
    | _ => none

/-- The scripts that options give, those that end in a backslash joined with the next. -/
def joined : List Text → List Text
  | a :: b :: rest =>
    match joined (b :: rest) with
    | c :: more =>
      if (a.reverse.takeWhile (· = '\\')).length % 2 = 1 then (a ++ '\n' :: c) :: more
      else a :: c :: more
    | [] => [a]
  | ts => ts

/-- The first letter among arguments that asks for editing in place, with the letters around it
as arguments of their own, and the ending for a copy. -/
def inPlace : List Text → List Text × Option Text
  | [] => ([], none)
  | arg :: args =>
    let other : List Text × Option Text :=
      let (rest, ending) := inPlace args
      (arg :: rest, ending)
    match arg with
    | ['-', '-'] => (arg :: args, none)
    | '-' :: '-' :: name =>
      if name = "in-place".toList then (args, some [])
      else if "in-place=".toList.isPrefixOf name then (args, some (name.drop 9))
      else other
    | '-' :: letters =>
      let before := letters.takeWhile fun c => !"iefl".toList.any (· = c)
      match letters.drop before.length with
      | 'i' :: ending => (if before.isEmpty then args else ('-' :: before) :: args, some ending)
      | _ => other
    | _ => other

end Edit

open Edit in
def sed (args : List Text) : Running Nat := do
  let o : Options := ⟨"sed", "nErsuz", "efl", [("quiet", 'n'), ("silent", 'n'),
    ("expression", 'e'), ("file", 'f'), ("regexp-extended", 'E'), ("separate", 's'),
    ("null-data", 'z'), ("unbuffered", 'u'), ("line-length", 'l'), ("posix", 'u'),
    ("debug", 'u')], 1⟩
  let (args, ending) := inPlace args
  let g ← o.read args
  let given := g.options.filter fun (c, _) => c = 'e' || c = 'f'
  let (scripts, operands) ← match given, g.operands with
    | [], [] => do
      err "Usage: sed [OPTION]... \x7bscript-only-if-no-other-script\x7d [input-file]...\n".toList
      throw (.failed 1)
    | [], t :: rest => pure ([(Sum.inr 1, t)], rest)
    | _, operands => do
      let numbered := (joined (g.values 'e')).zipIdx.map fun (t, i) => (Sum.inr (i + 1), t)
      let read ← (g.values 'f').mapM fun path => do
        match ← source path with
        | .ok t => pure (Sum.inl path, t)
        | .error fault =>
          refuse "sed" 4 ("couldn't open file ".toList ++ path ++ ": ".toList ++ faultText fault)
      pure (if given.head?.any (·.1 = 'f') then read ++ numbered else numbered ++ read, operands)
  let script ← match instructionsOf (g.has 'E' || g.has 'r') scripts with
    | .ok script => pure script
    | .error e => refuse "sed" 1 e
  let first := (scripts.head?.map Prod.snd).getD []
  let asksSilence := "#n".toList.isPrefixOf first
  let x : Settings := ⟨g.has 'n' || asksSilence, g.has 's' || ending.isSome,
    ((g.value? 'l').bind fun t => (String.ofList t).toNat?).getD 70,
    if g.has 'z' then '\x00' else '\n', script⟩
  for r in script.toList do
    if let .jump _ label := r.action then
      if !label.isEmpty && (labelAt? x label).isNone then
        refuse "sed" 4 ("can't find label for jump to \x60".toList ++ label ++ ['\''])
  let mut files : Entries Text Nat := []
  for path in outputsOf script do
    if path ≠ "/dev/stdout".toList && !files.has path then
      match ← openFile .overwrite path with
      | .ok i => files := files.insert path i
      | .error fault =>
        refuse "sed" 4 ("couldn't open file ".toList ++ path ++ ": ".toList ++ faultText fault)
  let mut status := 0
  let mut records : List (List Record) := []
  for (path, i) in (if operands.isEmpty then [['-']] else operands).zipIdx do
    match ← source path with
    | .ok t => records := records ++ [recordsOf x.mark i path t]
    | .error .folder => do
      if ending.isSome then
        complainAs "sed" ("couldn't edit ".toList ++ path ++ ": not a regular file".toList)
        status := 4
      else refuse "sed" 4 ("read error on ".toList ++ path ++ ": Is a directory".toList)
    | .error fault => do
      complainAs "sed" ("can't read ".toList ++ path ++ ": ".toList ++ faultText fault)
      status := 2
  let start (rest : List Record) : Session :=
    ⟨rest, ⟨[], true, operands.length + 1, []⟩, 0, ([], true), [], false, none, [], ([], false),
      files, []⟩
  match ending with
  | none => do
    let (code, s) ← (cycles x 1000000 true).run (start records.flatten)
    out s.written.1.reverse.flatten
    pure (if code = 0 then status else code)
  | some ending => do
    for rs in records do
      let path := (rs.head?.map Record.name).getD []
      let before ← source path
      let (code, s) ← (cycles x 1000000 true).run (start rs)
      if !path.isEmpty then
        if !ending.isEmpty then
          let copy := if ending.any (· = '*') then ending.replace ['*'] path else path ++ ending
          let _ ← save .overwrite copy (before.toOption.getD [])
        let _ ← save .overwrite path s.written.1.reverse.flatten
      if code ≠ 0 then status := code
    pure status

end Stencil.Shell.Utility
