import Stencil.Shell.Regex
import Stencil.Shell.Utility.Options

/-! The program that shows the lines in which something is found. -/
namespace Stencil.Shell.Utility

open Running

namespace Grep

/-- What is looked for, and how it is shown. -/
structure Search where
  regex : Regex
  given : Given
  /-- How many lines are shown before and after a line that is found. -/
  before : Nat
  after : Nat
  limit : Option Nat

/-- What stands in front of a line that is shown. -/
def front (s : Search) (named : Bool) (name : Text) (number : Nat) (mark : Char) : Text :=
  (if named then name ++ [mark] else []) ++
    (if s.given.has 'n' then digits number ++ [mark] else [])

def subject (s : Search) (l : Text) : Regex.Subject := ⟨l.toArray, s.given.has 'i', false⟩

def selects (s : Search) (l : Text) : Bool :=
  (Regex.find (subject s l) s.regex 0).isSome ≠ s.given.has 'v'

/-- The lines that are selected, by number, as many as are allowed. -/
def selected (s : Search) (ls : List Text) : List Nat :=
  let all := (ls.zipIdx.filter fun (l, _) => selects s l).map Prod.snd
  match s.limit with
  | some n => all.take n
  | none => all

/-- The output for lines of which some are selected. -/
def shown (s : Search) (named : Bool) (name : Text) (ls : List Text) (hits : List Nat) : Text :=
  if s.given.has 'o' then
    if s.given.has 'v' then []
    else hits.flatMap fun i =>
      let l := ls.getD i []
      let u := subject s l
      (Regex.findAll u s.regex).flatMap fun m =>
        if m.start = m.stop then []
        else front s named name (i + 1) ':' ++ u.slice m.start m.stop ++ ['\n']
  else if s.before = 0 && s.after = 0 then
    hits.flatMap fun i => front s named name (i + 1) ':' ++ ls.getD i [] ++ ['\n']
  else
    let near (i : Nat) : Bool := hits.any fun h => i ≤ h + s.after && h ≤ i + s.before
    let step (acc : List Text × Option Nat) (p : Text × Nat) : List Text × Option Nat :=
      let (pieces, last) := acc
      let (l, i) := p
      if near i then
        let gap := last.any (· + 1 < i)
        let mark := if hits.any (· = i) then ':' else '-'
        ((front s named name (i + 1) mark ++ l ++ ['\n']) ::
          (if gap then "--\n".toList :: pieces else pieces), some i)
      else acc
    (ls.zipIdx.foldl step ([], none)).1.reverse.flatten

end Grep

/-- The files below a directory, by their paths. -/
def filesBelow (d : Directory) (path : Text) (names : List Text) : List Text :=
  let inner := d.items.filterMap fun (key, item) =>
    match item with
    | .file _ _ =>
      if names.isPrefixOf key && names ≠ key then some (key.drop names.length) else none
    | .folder => none
  inner.map fun rest => Path.join path (toUtf8 (Text.join ['/'] rest))

def grep (extended literal : Bool) (args : List Text) : Running Nat := do
  let o : Options := ⟨"grep", "ivcnlLqowxEFGPRrhHsaUzyT", "efmABC", [("ignore-case", 'i'),
    ("invert-match", 'v'), ("count", 'c'), ("line-number", 'n'), ("files-with-matches", 'l'),
    ("files-without-match", 'L'), ("quiet", 'q'), ("silent", 'q'), ("only-matching", 'o'),
    ("word-regexp", 'w'), ("line-regexp", 'x'), ("extended-regexp", 'E'), ("fixed-strings", 'F'),
    ("basic-regexp", 'G'), ("perl-regexp", 'P'), ("recursive", 'r'), ("no-filename", 'h'),
    ("with-filename", 'H'), ("no-messages", 's'), ("text", 'a'), ("regexp", 'e'), ("file", 'f'),
    ("max-count", 'm'), ("after-context", 'A'), ("before-context", 'B'), ("context", 'C')], 2⟩
  let numbered := args.map fun a =>
    match a with
    | '-' :: c :: r => if (c :: r).all Char.isDigit then "-C".toList ++ c :: r else a
    | a => a
  let g ← o.read (numbered.filter fun a => !"--color".toList.isPrefixOf a)
  let read ← (g.values 'f').mapM fun path => do
    match ← source path with
    | .ok t => pure (linesOf t)
    | .error fault => refuse "grep" 2 (path ++ ": ".toList ++ faultText fault)
  let given := (g.values 'e').flatMap (Text.splitOn '\n') ++ read.flatten
  let hasOwn := g.has 'e' || g.has 'f'
  let (patterns, operands) ←
    if hasOwn then pure (given, g.operands)
    else match g.operands with
      | p :: rest => pure (Text.splitOn '\n' p, rest)
      | [] => do
        err ("Usage: grep [OPTION]... PATTERNS [FILE]...\n".toList ++
          "Try 'grep --help' for more information.\n".toList)
        throw (.failed 2)
  let extended := (extended || g.has 'E' || g.has 'P') && !g.has 'G'
  let literal := literal || g.has 'F'
  let parsed ← patterns.mapM fun p =>
    if literal then pure (Regex.literal p)
    else match Regex.ofText ⟨extended, false⟩ p with
      | .ok (r, _) => pure r
      | .error e => refuse "grep" 2 e.toList
  let bounded (r : Regex) : Regex :=
    if g.has 'x' then .sequence .front (.sequence r .back)
    else if g.has 'w' then .sequence (.apart true) (.sequence r (.apart false))
    else r
  let regex : Option Regex := match parsed.map bounded with
    | [] => none
    | r :: rs => some (rs.foldl .either r)
  let natural (c : Char) : Option Nat := (g.value? c).bind fun t => (String.ofList t).toNat?
  let around := (natural 'C').getD 0
  let search : Grep.Search := ⟨regex.getD .empty, g,
    (natural 'B').getD around, (natural 'A').getD around, natural 'm'⟩
  let recursive := g.has 'r' || g.has 'R'
  let d := (← get).directory
  let listed ← (if operands.isEmpty then (if recursive then [['.']] else [['-']])
    else operands).mapM fun path => do
      if recursive then
        match ← locate path with
        | .folder names =>
          let under := filesBelow d path names
          pure (if operands.isEmpty then under.map (·.drop 2) else under)
        | _ => pure [path]
      else pure [path]
  let named := (1 < operands.length || recursive || g.has 'H') && !g.has 'h'
  let mut found := false
  let mut failed := false
  for path in listed.flatten do
    match ← source path with
    | .error fault => do
      if !g.has 's' then complainAs "grep" (path ++ ": ".toList ++ faultText fault)
      failed := true
    | .ok t => do
      let name := if path = ['-'] then "(standard input)".toList else path
      let ls := linesOf t
      let hits := if regex.isNone then (if g.has 'v' then List.range ls.length else [])
        else Grep.selected search ls
      if !hits.isEmpty then found := true
      if g.has 'q' then pure ()
      else if g.has 'c' then
        out ((if named then name ++ [':'] else []) ++ digits hits.length ++ ['\n'])
      else if g.has 'l' then out (if hits.isEmpty then [] else name ++ ['\n'])
      else if g.has 'L' then out (if hits.isEmpty then name ++ ['\n'] else [])
      else if t.any (· = '\x00') && !g.has 'a' then
        if !hits.isEmpty then out ("grep: ".toList ++ name ++ ": binary file matches\n".toList)
      else out (Grep.shown search named name ls hits)
  pure (if found && (g.has 'q' || !failed) then 0 else if failed then 2 else 1)

end Stencil.Shell.Utility
