import Stencil.Shell.Utility.Listing

/-! Programs that say how two files differ. -/
namespace Stencil.Shell.Utility

open Running

/-- Complains as a program does that names itself in front of its advice too. -/
def advised {α : Type} (program : String) (t : Text) : Running α := do
  let name ← calledAs program
  complainAs program t
  refuse program 2 ("Try '".toList ++ name ++ " --help' for more information.".toList)

/-! ### cmp -/

/-- How many characters two texts share at their fronts. -/
def sharedLength : Text → Text → Nat
  | a :: s, b :: t => if a = b then sharedLength s t + 1 else 0
  | _, _ => 0

def cmp (args : List Text) : Running Nat := do
  let o : Options := ⟨"cmp", "slb", "ni", [("silent", 's'), ("quiet", 's'), ("verbose", 'l'),
    ("bytes", 'n'), ("ignore-initial", 'i'), ("print-bytes", 'b')], 2⟩
  let g ← o.read args
  let natural (c : Char) : Option Nat := (g.value? c).bind fun t => (String.ofList t).toNat?
  match g.operands with
  | [] => advised "cmp" ("missing operand after ".toList ++ enclosed (← calledAs "cmp"))
  | a :: rest => do
    let b := rest.headD ['-']
    let read (path : Text) : Running Text := do
      match ← source path with
      | .ok t =>
        let t := t.drop ((natural 'i').getD 0)
        pure ((natural 'n').elim t t.take)
      | .error fault =>
        if g.has 's' then throw (.failed 2)
        else refuse "cmp" 2 (path ++ ": ".toList ++ faultText fault)
    let (s, t) := (← read a, ← read b)
    let n := sharedLength s t
    if n = s.length && n = t.length then pure 0
    else if g.has 's' then pure 1
    else if g.has 'l' then
      for ((x, y), i) in (s.zip t).zipIdx do
        if x ≠ y then
          out (padded (digits (max s.length t.length)).length (digits (i + 1)) ++
            ' ' :: padded 3 (Nat.toDigits 8 x.toNat) ++ ' ' :: padded 3 (Nat.toDigits 8 y.toNat) ++
            ['\n'])
      if s.length ≠ t.length then
        let short := if s.length < t.length then a else b
        complainAs "cmp" ("EOF on ".toList ++ short ++ " after byte ".toList ++
          digits (min s.length t.length))
      pure 1
    else if n = s.length || n = t.length then
      let short := if n = s.length then a else b
      let line := (s.take n).count '\n'
      let place : Text :=
        if n = 0 then " which is empty".toList
        else " after byte ".toList ++ digits n ++
          (if (s.take n).getLast? = some '\n' then ", line ".toList ++ digits line
            else ", in line ".toList ++ digits (line + 1))
      complainAs "cmp" ("EOF on ".toList ++ short ++ place)
      pure 1
    else
      let sign (c : Char) : Text := padded 3 (Nat.toDigits 8 c.toNat) ++ ' ' :: [c]
      let (unit, shown) : String × Text :=
        if g.has 'b' then
          ("byte", " is ".toList ++ sign (s.getD n ' ') ++ ' ' :: sign (t.getD n ' '))
        else ("char", [])
      out (a ++ ' ' :: b ++ s!" differ: {unit} ".toList ++ digits (n + 1) ++ ", line ".toList ++
        digits ((s.take n).count '\n' + 1) ++ shown ++ ['\n'])
      pure 1

/-! ### diff -/

namespace Difference

/-- Where lines are taken away and others are put in: how many lines stand before on either side,
and the lines. -/
structure Hunk where
  before : Nat × Nat
  old : List Text
  new : List Text

/-- A line of two texts beside each other. -/
inductive Step where
  | same (l : Text)
  | old (l : Text)
  | new (l : Text)

/-- How long the longest lists are that the rests of two lists share, by the rest of the second. -/
def sharedRow (same : Text → Text → Bool) (a : Text) : List Text → List Nat → List Nat
  | [], below => below
  | b :: t, below =>
    let right := sharedRow same a t below.tail
    let best := if same a b then below.tail.headD 0 + 1 else max (below.headD 0) (right.headD 0)
    best :: right

/-- The steps from one list to the other that keep as many lines as can be kept. -/
def steps (same : Text → Text → Bool) : List Text → List Text → List (List Nat) → Nat → List Step
  | _, _, _, 0 => []
  | [], t, _, _ => t.map .new
  | s, [], _, _ => s.map .old
  | a :: s, b :: t, table, n + 1 =>
    if same a b then .same a :: steps same s t (table.tail.map List.tail) n
    else
      let down := (table.getD 1 []).headD 0
      let right := ((table.headD []).tail).headD 0
      if right ≤ down then .old a :: steps same s (b :: t) table.tail n
      else .new b :: steps same (a :: s) t (table.map List.tail) n

/-- The steps from one list of lines to another. -/
def between (same : Text → Text → Bool) (s t : List Text) : List Step :=
  let table := s.foldr (fun a (rows : List (List Nat)) =>
    sharedRow same a t (rows.headD (List.replicate (t.length + 1) 0)) :: rows)
    [List.replicate (t.length + 1) 0]
  steps same s t table (s.length + t.length)

/-- The hunks that steps make. -/
def hunksFrom : List Step → Nat × Nat → Option Hunk → List Hunk
  | [], _, h => h.toList
  | .same _ :: r, (i, j), h => h.toList ++ hunksFrom r (i + 1, j + 1) none
  | .old l :: r, (i, j), h =>
    let h := h.getD ⟨(i, j), [], []⟩
    hunksFrom r (i + 1, j) (some { h with old := h.old ++ [l] })
  | .new l :: r, (i, j), h =>
    let h := h.getD ⟨(i, j), [], []⟩
    hunksFrom r (i, j + 1) (some { h with new := h.new ++ [l] })

def hunks (ss : List Step) : List Hunk := hunksFrom ss (0, 0) none

/-- A line behind a mark; where its end is missing, that is said. -/
def marked (mark : Text) (l : Text) : Text :=
  mark ++ l ++ if l.getLast? = some '\n' then [] else "\n\\ No newline at end of file\n".toList

/-- The numbers of lines of one side. -/
def spanText (before size : Nat) : Text :=
  if size = 0 then digits before
  else if size = 1 then digits (before + 1)
  else digits (before + 1) ++ ',' :: digits (before + size)

/-- A hunk in the plain form. -/
def plain (h : Hunk) : Text :=
  let (i, j) := h.before
  let letter := if h.old.isEmpty then 'a' else if h.new.isEmpty then 'd' else 'c'
  spanText i h.old.length ++ letter :: spanText j h.new.length ++ ['\n'] ++
    h.old.flatMap (marked ['<', ' ']) ++ (if letter = 'c' then "---\n".toList else []) ++
    h.new.flatMap (marked ['>', ' '])

/-- Steps with the numbers of the lines before them on either side. -/
def numbered : List Step → Nat × Nat → List (Step × Nat × Nat)
  | [], _ => []
  | .same l :: r, (i, j) => (.same l, i, j) :: numbered r (i + 1, j + 1)
  | .old l :: r, (i, j) => (.old l, i, j) :: numbered r (i + 1, j)
  | .new l :: r, (i, j) => (.new l, i, j) :: numbered r (i, j + 1)

def isChange : Step → Bool
  | .same _ => false
  | _ => true

/-- Runs of steps that stand near changes. -/
def nearRuns (context : Nat) (ss : List (Step × Nat × Nat)) : List (List (Step × Nat × Nat)) :=
  let changes := (ss.zipIdx.filter fun (x, _) => isChange x.1).map Prod.snd
  let near (k : Nat) : Bool := changes.any fun c => k ≤ c + context && c ≤ k + context
  let step (acc : List (List (Step × Nat × Nat)) × Bool) (p : (Step × Nat × Nat) × Nat) :
      List (List (Step × Nat × Nat)) × Bool :=
    let (runs, within) := acc
    if !near p.2 then (runs, false)
    else match within, runs with
      | true, run :: runs => ((p.1 :: run) :: runs, true)
      | _, runs => ([p.1] :: runs, true)
  ((ss.zipIdx.foldl step ([], false)).1.map List.reverse).reverse

/-- The form in which both sides stand together. -/
def unified (context : Nat) (ss : List Step) : Text :=
  (nearRuns context (numbered ss (0, 0))).flatMap fun run =>
    let count (p : Step → Bool) : Nat := (run.filter fun x => p x.1).length
    let olds := count fun
      | .new _ => false
      | _ => true
    let news := count fun
      | .old _ => false
      | _ => true
    let (i, j) := ((run.head?).map Prod.snd).getD (0, 0)
    let span (before size : Nat) : Text :=
      if size = 0 then digits before ++ ",0".toList
      else if size = 1 then digits (before + 1)
      else digits (before + 1) ++ ',' :: digits size
    "@@ -".toList ++ span i olds ++ " +".toList ++ span j news ++ " @@\n".toList ++
      run.flatMap fun (s, _) =>
        match s with
        | .same l => marked [' '] l
        | .old l => marked ['-'] l
        | .new l => marked ['+'] l

end Difference

open Difference in
/-- Says how two texts differ, as options ask, and gives the status. -/
def differ (g : Given) (a b : Text) (s t : Text) : Running Nat := do
  let key (l : Text) : Text :=
    let l := if g.has 'w' then l.filter fun c => c ≠ ' ' && c ≠ '\t' else l
    if g.has 'i' then l.map Char.toLower else l
  let same (x y : Text) : Bool := key x = key y
  let ss := between same (linesWithEnds s) (linesWithEnds t)
  if !ss.any isChange then
    if g.has 's' then
      out ("Files ".toList ++ a ++ " and ".toList ++ b ++ " are identical\n".toList)
    pure 0
  else if g.has 'q' then
    out ("Files ".toList ++ a ++ " and ".toList ++ b ++ " differ\n".toList)
    pure 1
  else if g.has 'u' || (g.value? 'U').isSome then
    let context := ((g.value? 'U').bind fun t => (String.ofList t).toNat?).getD 3
    out ("--- ".toList ++ a ++ "\n+++ ".toList ++ b ++ ['\n'] ++ unified context ss)
    pure 1
  else do
    out ((hunks ss).flatMap plain)
    pure 1

/-- Compares what stands at two paths, as deep as is allowed, and gives the status. -/
def compareAt (g : Given) (front : Text) : Nat → Text → Text → Running Nat
  | 0, _, _ => pure 2
  | n + 1, a, b => do
    match ← locate a, ← locate b with
    | .folder x, .folder y => do
      let d := (← get).directory
      let (xs, ys) := (Expansion.namesAt d (.folder x), Expansion.namesAt d (.folder y))
      let all := Expansion.sorted (xs ++ ys.filter fun name => !xs.any (· = name))
      let mut status := 0
      for name in all do
        if !ys.any (· = name) then
          out ("Only in ".toList ++ a ++ ": ".toList ++ name ++ ['\n'])
          status := max status 1
        else if !xs.any (· = name) then
          out ("Only in ".toList ++ b ++ ": ".toList ++ name ++ ['\n'])
          status := max status 1
        else
          let (p, q) := (Path.join a name, Path.join b name)
          match ← locate p, ← locate q with
          | .folder _, .folder _ =>
            if g.has 'r' then status := max status (← compareAt g front n p q)
            else
              out ("Common subdirectories: ".toList ++ p ++ " and ".toList ++ q ++ ['\n'])
          | .file _ s _, .file _ t _ =>
            if s ≠ t then
              if !g.has 'q' then out (front ++ ' ' :: p ++ ' ' :: q ++ ['\n'])
              status := max status
                (← differ g p q (Encoding.bytewise s) (Encoding.bytewise t))
          | _, _ => status := max status 1
      pure status
    | x, y => do
      let within (path other : Text) : Text := Path.join path (lastName other)
      let (p, q) : Text × Text := match x, y with
        | .folder _, .folder _ => (a, b)
        | .folder _, _ => (if b = ['-'] then a else within a b, b)
        | _, .folder _ => (a, if a = ['-'] then b else within b a)
        | _, _ => (a, b)
      let read (path : Text) : Running (Option Text) := do
        match ← source path with
        | .ok t => pure (some t)
        | .error fault =>
          if g.has 'N' && fault = .missing then pure (some [])
          else do
            complainAs "diff" (path ++ ": ".toList ++ faultText fault)
            pure none
      let s ← read p
      let t ← read q
      match s, t with
      | some s, some t => differ g p q s t
      | _, _ => pure 2

def diff (args : List Text) : Running Nat := do
  let o : Options := ⟨"diff", "qsuirwNabBEd", "UL", [("brief", 'q'), ("recursive", 'r'),
    ("unified", 'u'), ("ignore-case", 'i'), ("new-file", 'N'), ("text", 'a'), ("normal", 'a'),
    ("report-identical-files", 's'), ("ignore-all-space", 'w')], 2⟩
  let colorless := args.filter fun a => !"--color".toList.isPrefixOf a
  let g ← o.read colorless
  match g.operands with
  | [a, b] =>
    let options := colorless.filter fun x => x.head? = some '-' && x ≠ ['-']
    compareAt g (Text.join [' '] ("diff".toList :: options)) 1000 a b
  | _ :: _ :: c :: _ => advised "diff" ("extra operand ".toList ++ enclosed c)
  | [a] => advised "diff" ("missing operand after ".toList ++ enclosed a)
  | [] => advised "diff" ("missing operand after ".toList ++ enclosed (← calledAs "diff"))

end Stencil.Shell.Utility
