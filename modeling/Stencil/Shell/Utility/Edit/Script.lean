import Stencil.Shell.Regex

/-! Scripts that edit lines: which lines each instruction is for, what it does, and how it is
written. -/
namespace Stencil.Shell.Utility.Edit

/-- What a line is searched for; nothing stands for what was searched for last. -/
structure Needle where
  regex : Option Regex
  fold : Bool
  manyLines : Bool

/-- Which lines an address is for. -/
inductive Address where
  | line (n : Nat)
  /-- Every so many lines from one on. -/
  | every (start step : Nat)
  | last
  | found (x : Needle)

/-- Where a range of lines ends. -/
inductive Bound where
  | address (a : Address)
  | count (n : Nat)
  | multiple (n : Nat)

structure Selector where
  start : Option Address
  stop : Option Bound
  negated : Bool

/-- How the letters that follow are spelled. -/
inductive Spelling where
  | upper
  | lower
  | asIs
  | upperOnce
  | lowerOnce
  deriving DecidableEq, Repr

/-- A part of what a match is replaced by. -/
inductive Filling where
  | text (t : Text)
  | group (n : Nat)
  | spelled (s : Spelling)

structure Substitution where
  needle : Needle
  fillings : List Filling
  /-- The number of the first match that is replaced. -/
  nth : Nat
  all : Bool
  prints : Bool
  path : Option Text

/-- When an instruction goes on somewhere else. -/
inductive When where
  | always
  | changed
  | unchanged
  deriving DecidableEq, Repr

inductive Action where
  /-- The instructions up to a number are for the lines that are selected. -/
  | block (stop : Nat)
  | label (name : Text)
  | jump (w : When) (label : Text)
  | delete
  | deleteFront
  | print
  | printFront
  | next
  | join
  | hold
  | holdMore
  | recall
  | recallMore
  | exchange
  | clear
  | number
  | name
  | spell (width : Option Nat)
  | quit (status : Nat) (prints : Bool)
  | append (t : Text)
  | insert (t : Text)
  | change (t : Text)
  | read (path : Text)
  | readLine (path : Text)
  | write (path : Text)
  | writeFront (path : Text)
  | alter (table : List (Char × Char))
  | substitute (s : Substitution)
  | nothing

structure Instruction where
  selector : Selector
  action : Action

/-! ### Reading -/

/-- A script that is being read: what is left of it, how many characters and lines were read, the
instructions so far, and the numbers of the blocks that are open. -/
structure Source where
  rest : Text
  used : Nat
  line : Nat
  /-- The file of the script, or else its number among those that are given. -/
  origin : Text ⊕ Nat
  extended : Bool
  done : Array Instruction
  blocks : List Nat

abbrev Reader := StateT Source (Except Text)

namespace Reader

/-- Gives up at the place that was read to. -/
def fail {α : Type} (reason : String) : Reader α := do
  let s ← get
  let place : Text := match s.origin with
    | .inl path => "file ".toList ++ path ++ s!" line {s.line}: ".toList
    | .inr n => s!"-e expression #{n}, char {s.used}: ".toList
  throw (place ++ reason.toList)

def look : Reader (Option Char) := do return (← get).rest.head?

def skip : Reader Unit := modify fun s =>
  let line := if s.rest.head? = some '\n' then s.line + 1 else s.line
  { s with
    rest := s.rest.tail
    used := if s.rest.isEmpty then s.used else s.used + 1
    line := line }

def next : Reader (Option Char) := do
  let c ← look
  skip
  pure c

/-- Reads the characters at the front that fit. -/
def takeWhile (p : Char → Bool) : Reader Text := do
  let t := (← get).rest.takeWhile p
  modify fun s => { s with rest := s.rest.drop t.length, used := s.used + t.length }
  pure t

def isBlank (c : Char) : Bool := c = ' ' || c = '\t'

def blanks : Reader Unit := do let _ ← takeWhile isBlank

def natural : Reader Nat := do return (Number.digitsOf 10 (← takeWhile Char.isDigit)).1

/-- Reads up to a delimiter, which is read too; nothing where the line ends before it. In
`isRegex` brackets keep a delimiter, and a backslash before it is dropped. -/
def delimited (delimiter : Char) (isRegex : Bool) : Nat → Reader (Option Text)
  | 0 => pure none
  | n + 1 => do
    match ← look with
    | none | some '\n' => pure none
    | some '\\' => do
      skip
      match ← look with
      | none => pure none
      | some c => do
        skip
        let piece : Text :=
          if c = 'n' && isRegex then ['\n']
          else if c = '\n' then (if isRegex then ['\n'] else ['\\', '\n'])
          else if c = delimiter && (isRegex || c ≠ '&') then [c]
          else ['\\', c]
        return (← delimited delimiter isRegex n).map (piece ++ ·)
    | some c => do
      skip
      if c = delimiter then pure (some [])
      else if c = '[' && isRegex then do
        let inner ← bracket
        return (← delimited delimiter isRegex n).map ('[' :: inner ++ ·)
      else return (← delimited delimiter isRegex n).map (c :: ·)
where
  /-- The inside of a bracket expression, up to its end. -/
  bracket : Reader Text := do
    let t := (← get).rest
    let negation := t.takeWhile (· = '^')
    let front := if (t.drop negation.length).head? = some ']' then negation ++ [']'] else negation
    let inner := classes (t.length + 1) (t.drop front.length)
    let whole := front ++ inner
    modify fun s => { s with rest := s.rest.drop whole.length, used := s.used + whole.length }
    pure whole
  classes : Nat → Text → Text
    | 0, _ | _, [] => []
    | n + 1, t =>
      match t with
      | ']' :: _ => [']']
      | '[' :: ':' :: r =>
        let name := r.takeWhile fun c => c ≠ ']' && c ≠ '\n'
        '[' :: ':' :: name ++ (r.drop name.length).take 1 ++
          classes n ((r.drop name.length).drop 1)
      | c :: r => if c = '\n' then [] else c :: classes n r
      | [] => []

/-- The characters that numbers and letters after backslashes stand for, as many as are allowed. -/
def escapes : Nat → Text → Text
  | 0, t => t
  | _ + 1, [] => []
  | n + 1, '\\' :: c :: r =>
    let coded (base size : Nat) : Text :=
      let isFit (d : Char) : Bool := (Number.digit? d).any (· < base)
      let ds := (r.take size).takeWhile isFit
      if ds.isEmpty then '\\' :: c :: escapes n r
      else
        let d := Char.ofNat ((Number.digitsOf base ds).1 % 256)
        let special := "\\&*.[]^$".toList.any (· = d)
        (if special then ['\\', d] else [d]) ++ escapes n (r.drop ds.length)
    match c with
    | 'a' => '\x07' :: escapes n r
    | 'f' => '\x0c' :: escapes n r
    | 't' => '\t' :: escapes n r
    | 'v' => '\x0b' :: escapes n r
    | 'r' => '\x0d' :: escapes n r
    | 'x' => coded 16 2
    | 'o' => coded 8 3
    | 'd' => coded 10 3
    | c => '\\' :: c :: escapes n r
  | n + 1, c :: r => c :: escapes n r

def plainEscapes (t : Text) : Text := escapes t.length t

/-- The search for what a text writes, and the number of its groups. -/
def needle (t : Text) (fold manyLines : Bool) : Reader (Needle × Nat) := do
  if t.isEmpty then pure (⟨none, fold, manyLines⟩, 9)
  else match Regex.ofText ⟨(← get).extended, true⟩ (plainEscapes t) with
    | .ok (r, groups) => pure (⟨some r, fold, manyLines⟩, groups)
    | .error e => fail e

/-- Reads the letters after an address, as many as are allowed. -/
def needleMarks : Nat → Bool → Bool → Reader (Bool × Bool)
  | 0, fold, manyLines => pure (fold, manyLines)
  | n + 1, fold, manyLines => do
    blanks
    match ← look with
    | some 'I' => do
      skip
      needleMarks n true manyLines
    | some 'M' => do
      skip
      needleMarks n fold true
    | _ => pure (fold, manyLines)

/-- Reads an address that begins with a character, if one does. -/
def address : Reader (Option Address) := do
  match ← look with
  | some '$' => do
    skip
    pure (some .last)
  | some c =>
    if c.isDigit then
      let n ← natural
      blanks
      if (← look) = some '~' then
        skip
        blanks
        return some (.every n (← natural))
      else pure (some (.line n))
    else if c = '/' || c = '\\' then
      skip
      let delimiter ← if c = '\\' then (·.getD '\n') <$> next else pure c
      let size := (← get).rest.length
      match ← delimited delimiter true (size + 1) with
      | none => fail "unterminated address regex"
      | some t => do
        let (fold, manyLines) ← needleMarks size false false
        return some (.found (← needle t fold manyLines).1)
    else pure none
  | none => pure none

/-- Reads the end of a range. -/
def bound : Reader (Option Bound) := do
  match ← look with
  | some '+' => do
    skip
    blanks
    return some (.count (← natural))
  | some '~' => do
    skip
    blanks
    return some (.multiple (← natural))
  | _ => return (← address).map .address

/-- Reads the addresses of an instruction. -/
def selector : Reader Selector := do
  if (← look) = some '+' || (← look) = some '~' then
    let _ ← bound
    fail "invalid usage of +N or ~N as first address"
  match ← address with
  | none => bang ⟨none, none, false⟩
  | some a => do
    blanks
    let stop ← if (← look) = some ',' then
        skip
        blanks
        match ← bound with
        | none => do
          fail "unexpected \x60,'"
        | some b => pure (some b)
      else pure none
    blanks
    bang ⟨some a, stop, false⟩
where
  bang (s : Selector) : Reader Selector := do
    if (← look) = some '!' then
      skip
      blanks
      if (← look) = some '!' then
        skip
        fail "multiple \x60!'s"
      pure { s with negated := true }
    else pure s

/-- Reads to the end of an instruction. -/
def ending : Reader Unit := do
  blanks
  match ← look with
  | none | some '\x7d' | some '#' => pure ()
  | some '\n' | some ';' => skip
  | some _ => do
    skip
    fail "extra characters after command"

/-- Reads a name up to a blank or the end of an instruction. -/
def label : Reader Text := do
  blanks
  takeWhile fun c => !isBlank c && c ≠ '\n' && c ≠ ';' && c ≠ '\x7d'

/-- Reads the name of a file, to the end of the line. -/
def path : Reader Text := do
  blanks
  let t ← takeWhile (· ≠ '\n')
  if t.isEmpty then fail "missing filename in r/R/w/W commands" else pure t

/-- Reads lines of text, of which all but the last end in a backslash. -/
def textLines : Nat → Reader Text
  | 0 => pure []
  | n + 1 => do
    match ← next with
    | none | some '\n' => pure []
    | some '\\' => do
      match ← next with
      | none => pure []
      | some c =>
        if c = '\n' then return c :: (← textLines n)
        else return '\\' :: c :: (← textLines n)
    | some c => return c :: (← textLines n)

/-- A text without the backslashes in it. -/
def unmarked : Nat → Text → Text
  | 0, t => t
  | n + 1, '\\' :: c :: r => (if c = 'n' then '\n' else c) :: unmarked n r
  | n + 1, c :: r => c :: unmarked n r
  | _ + 1, [] => []

/-- Reads the text of an instruction. -/
def text : Reader Text := do
  blanks
  let size := (← get).rest.length
  let read : Reader Text := do
    let t := plainEscapes (← textLines (size + 1))
    return unmarked t.length t ++ ['\n']
  match ← look with
  | none => fail "expected \\ after \x60a', \x60c' or \x60i'"
  | some '\\' => do
    skip
    match ← look with
    | none => pure []
    | some '\n' => do
      skip
      read
    | some _ => read
  | some _ => read

/-- The parts of what a match is replaced by, as many as are allowed. -/
def fillings : Nat → Text → List Filling
  | 0, _ => []
  | _ + 1, [] => []
  | n + 1, '\\' :: c :: r =>
    let part : Filling := match c with
      | 'U' => .spelled .upper
      | 'L' => .spelled .lower
      | 'E' => .spelled .asIs
      | 'u' => .spelled .upperOnce
      | 'l' => .spelled .lowerOnce
      | 'n' => .text ['\n']
      | c => if c.isDigit then .group (c.toNat - 48) else .text [c]
    part :: fillings n r
  | n + 1, '&' :: r => .group 0 :: fillings n r
  | n + 1, c :: r => .text [c] :: fillings n r

/-- What the letters after a substitution say. -/
structure Marks where
  all : Bool
  prints : Bool
  nth : Option Nat
  fold : Bool
  manyLines : Bool
  path : Option Text

/-- Reads the letters after a substitution, as many as are allowed. -/
def marks : Nat → Marks → Reader Marks
  | 0, m => pure m
  | n + 1, m => do
    match ← look with
    | none | some '\x7d' | some '#' => pure m
    | some '\n' | some ';' => do
      skip
      pure m
    | some c => do
      if c.isDigit then
        if m.nth.isSome then
          skip
          fail "multiple number options to \x60s' command"
        let k ← natural
        if k = 0 then fail "number option to \x60s' command may not be zero"
        marks n { m with nth := some k }
      else
        skip
        match c with
        | 'g' =>
          if m.all then fail "multiple \x60g' options to \x60s' command"
          marks n { m with all := true }
        | 'p' =>
          if m.prints then fail "multiple \x60p' options to \x60s' command"
          marks n { m with prints := true }
        | 'i' | 'I' => marks n { m with fold := true }
        | 'm' | 'M' => marks n { m with manyLines := true }
        | ' ' => marks n m
        | 'w' => return { m with path := some (← path) }
        | _ => fail "unknown option to \x60s'"

/-- Reads a substitution after its letter. -/
def substitution : Reader Action := do
  let size := (← get).rest.length
  let unterminated {α : Type} : Reader α := fail "unterminated \x60s' command"
  match ← next with
  | none => unterminated
  | some delimiter => do
    let some old ← delimited delimiter true (size + 1) | unterminated
    let some new ← delimited delimiter false (size + 1) | unterminated
    let m ← marks (size + 1) ⟨false, false, none, false, false, none⟩
    let new := plainEscapes new
    let fs := fillings new.length new
    let (x, groups) ← needle old m.fold m.manyLines
    for f in fs do
      if let .group k := f then
        if groups < k then fail s!"invalid reference \\{k} on \x60s' command's RHS"
    pure (.substitute ⟨x, fs, m.nth.getD 1, m.all, m.prints, m.path⟩)

/-- Reads which characters are put for which, after the letter. -/
def alteration : Reader Action := do
  let size := (← get).rest.length
  let unterminated {α : Type} : Reader α := fail "unterminated \x60y' command"
  match ← next with
  | none => unterminated
  | some delimiter => do
    let some old ← delimited delimiter false (size + 1) | unterminated
    let some new ← delimited delimiter false (size + 1) | unterminated
    let plain (t : Text) : Text :=
      let t := plainEscapes t
      unmarked t.length t
    let (old, new) := (plain old, plain new)
    if old.length ≠ new.length then
      fail "strings for \x60y' command are different lengths"
    ending
    pure (.alter (old.zip new))

/-- Reads what an instruction does, after its letter. -/
def action (s : Selector) (c : Char) : Reader Action := do
  let plain (a : Action) : Reader Action := do
    ending
    pure a
  let oneAddress : Reader Unit := do
    if s.stop.isSome then fail "command only uses one address"
  let status : Reader Nat := do
    blanks
    natural
  match c with
  | 'd' => plain .delete
  | 'D' => plain .deleteFront
  | 'p' => plain .print
  | 'P' => plain .printFront
  | 'n' => plain .next
  | 'N' => plain .join
  | 'h' => plain .hold
  | 'H' => plain .holdMore
  | 'g' => plain .recall
  | 'G' => plain .recallMore
  | 'x' => plain .exchange
  | 'z' => plain .clear
  | '=' => plain .number
  | 'F' => plain .name
  | 'l' => do
    blanks
    let ds ← takeWhile Char.isDigit
    plain (.spell (if ds.isEmpty then none else some (Number.digitsOf 10 ds).1))
  | 'q' => do
    oneAddress
    plain (.quit (← status) true)
  | 'Q' => do
    oneAddress
    plain (.quit (← status) false)
  | 'a' => return .append (← text)
  | 'i' => return .insert (← text)
  | 'c' => return .change (← text)
  | 'r' => return .read (← path)
  | 'R' => return .readLine (← path)
  | 'w' => return .write (← path)
  | 'W' => return .writeFront (← path)
  | 'b' => do
    let l ← label
    plain (.jump .always l)
  | 't' => do
    let l ← label
    plain (.jump .changed l)
  | 'T' => do
    let l ← label
    plain (.jump .unchanged l)
  | 'v' => do
    let _ ← label
    plain .nothing
  | ':' => do
    if s.start.isSome then fail ": doesn't want any addresses"
    let l ← label
    if l.isEmpty then fail "\":\" lacks a label"
    pure (.label l)
  | 's' => substitution
  | 'y' => alteration
  | c => fail s!"unknown command: \x60{c}'"

/-- Reads instructions, as many as are allowed. -/
def instructions : Nat → Reader Unit
  | 0 => pure ()
  | n + 1 => do
    let _ ← takeWhile fun c => isBlank c || c = ';' || c = '\x0d'
    match ← look with
    | none => pure ()
    | some '\n' => do
      skip
      instructions n
    | some _ => do
      let s ← selector
      let add (a : Action) : Reader Unit :=
        modify fun r => { r with done := r.done.push ⟨s, a⟩ }
      match ← next with
      | none => fail "missing command"
      | some c => do
        if let some (.line 0) := s.start then
          match s.stop with
          | some (.address (.found _)) => pure ()
          | _ => fail "invalid usage of line address 0"
        match c with
        | '#' => do
          if s.start.isSome then fail "comments don't accept any addresses"
          let _ ← takeWhile (· ≠ '\n')
        | '\x7b' => do
          modify fun r => { r with blocks := r.done.size :: r.blocks }
          add (.block 0)
        | '\x7d' => do
          match (← get).blocks with
          | [] => fail "unexpected \x60\x7d'"
          | i :: outer => do
            if s.start.isSome then fail "\x60\x7d' doesn't want any addresses"
            modify fun r => { r with
              blocks := outer
              done := r.done.modify i fun x => { x with action := .block r.done.size } }
            ending
        | c => add (← action s c)
      instructions n

end Reader

/-- The instructions that scripts write, one after another; the first one may ask for silence. -/
def instructionsOf (extended : Bool) (scripts : List ((Text ⊕ Nat) × Text)) :
    Except Text (Array Instruction) := do
  let step (acc : Array Instruction × List (Nat × Nat)) (script : (Text ⊕ Nat) × Text) :
      Except Text (Array Instruction × List (Nat × Nat)) := do
    let (done, open') := acc
    let (origin, t) := script
    let source : Source := ⟨t, 0, 1, origin, extended, done, open'.map Prod.fst⟩
    let (_, s) ← (Reader.instructions (t.length + 1)).run source
    let number := match origin with
      | .inl _ => 0
      | .inr n => n
    let numbered (i : Nat) : Nat × Nat := (i, ((open'.find? (·.1 = i)).map Prod.snd).getD number)
    pure (s.done, s.blocks.map numbered)
  let (done, open') ← scripts.foldlM step (#[], [])
  match open' with
  | (_, n) :: _ => throw s!"-e expression #{n}, char 0: unmatched \x60\x7b'".toList
  | [] => pure done

end Stencil.Shell.Utility.Edit
