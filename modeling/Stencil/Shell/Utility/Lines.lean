import Stencil.Shell.Utility.Options

/-! Programs that show the lines or the bytes of their sources, or count them. -/
namespace Stencil.Shell.Utility

open Running

/-- Does something with each source in turn, and reports those that cannot be read. -/
def forSources (program : String) (operands : List Text)
    (reason : Text → PathFault → Text) (f : Text → Text → Running Unit) : Running Nat := do
  let mut status := 0
  for path in if operands.isEmpty then [['-']] else operands do
    match ← source path with
    | .ok t => f path t
    | .error fault => do
      complainAs program (reason path fault)
      status := 1
  pure status

/-- The usual report on a source. -/
def plainReason (path : Text) (fault : PathFault) : Text :=
  shown path ++ ": ".toList ++ faultText fault

/-! ### cat -/

/-- A character as it is shown where it could not be seen. -/
def visible (c : Char) : Text :=
  let low (n : Nat) : Text :=
    if n < 32 then ['^', Char.ofNat (n + 64)] else if n = 127 then ['^', '?'] else [Char.ofNat n]
  if c.toNat < 128 then low c.toNat else 'M' :: '-' :: low (c.toNat - 128)

/-- Where a text that is shown stands: the number of the line, whether a line begins, and whether
the line before is empty. -/
structure Showing where
  line : Nat
  fresh : Bool
  blank : Bool

/-- A text as it is shown with some options. -/
def showText (g : Given) : Text → Showing → List Text → List Text × Showing
  | [], s, acc => (acc, s)
  | c :: r, s, acc =>
    let newline := c = '\n'
    if newline && s.fresh && s.blank && g.has 's' then showText g r s acc
    else
      let numbered := s.fresh && (g.has 'b' && !newline || g.has 'n' && !g.has 'b')
      let front := if numbered then padded 6 (digits (s.line + 1)) ++ ['\t'] else []
      let marksHidden := g.has 'v' || g.has 'A' || g.has 'e' || g.has 't'
      let ends := g.has 'E' || g.has 'A' || g.has 'e'
      let tabs := g.has 'T' || g.has 'A' || g.has 't'
      let body :=
        if newline then (if ends then ['$', '\n'] else ['\n'])
        else if c = '\t' then (if tabs then ['^', 'I'] else ['\t'])
        else if marksHidden then visible c
        else [c]
      showText g r ⟨if numbered then s.line + 1 else s.line, newline, newline && s.fresh⟩
        ((front ++ body) :: acc)

def cat (args : List Text) : Running Nat := do
  let o : Options := ⟨"cat", "AbeEnstTuv", "", [("show-all", 'A'), ("number-nonblank", 'b'),
    ("show-ends", 'E'), ("number", 'n'), ("squeeze-blank", 's'), ("show-tabs", 'T'),
    ("show-nonprinting", 'v')], 1⟩
  let g ← o.read args
  let mut state : Showing := ⟨0, true, false⟩
  let mut status := 0
  for path in if g.operands.isEmpty then [['-']] else g.operands do
    match ← source path with
    | .ok t =>
      if g.options.isEmpty then out t
      else
        let (pieces, next) := showText g t state []
        state := next
        out pieces.reverse.flatten
    | .error fault => do
      complainAs "cat" (plainReason path fault)
      status := 1
  pure status

def tac (args : List Text) : Running Nat := do
  let o : Options := ⟨"tac", "br", "s", [], 1⟩
  let g ← o.read args
  let reason (path : Text) (fault : PathFault) : Text :=
    "failed to open ".toList ++ enclosed path ++ " for reading: ".toList ++ faultText fault
  forSources "tac" g.operands reason fun _ t => out (linesWithEnds t).reverse.flatten

def rev (args : List Text) : Running Nat := do
  let o : Options := ⟨"rev", "", "", [], 1⟩
  let g ← o.read args
  let reason (path : Text) (fault : PathFault) : Text :=
    "cannot open ".toList ++ path ++ ": ".toList ++ faultText fault
  forSources "rev" g.operands reason fun _ t =>
    out ((linesWithEnds t).flatMap fun l =>
      if l.getLast? = some '\n' then l.dropLast.reverse ++ ['\n'] else l.reverse)

/-! ### head and tail -/

/-- The number that a text writes, with a letter for a multiple. -/
def amount? (t : Text) : Option Nat :=
  let ds := t.takeWhile Char.isDigit
  if ds.isEmpty then none
  else
    let n := ((String.ofList ds).toNat?).getD 0
    match String.ofList (t.drop ds.length) with
    | "" => some n
    | "b" => some (n * 512)
    | "k" | "K" | "KiB" => some (n * 1024)
    | "kB" | "KB" => some (n * 1000)
    | "m" | "M" | "MiB" => some (n * 1048576)
    | "MB" => some (n * 1000000)
    | _ => none

/-- How much of a source is asked for: lines or bytes, counted from the near end or, where a sign
says so, from the far one. -/
structure Share where
  lines : Bool
  far : Bool
  amount : Nat

/-- Options such as `-5` as the option for lines. -/
def withNumber (args : List Text) : List Text :=
  match args with
  | ('-' :: c :: r) :: rest =>
    if c.isDigit then "-n".toList :: (c :: r) :: rest else args
  | args => args

/-- The share that options ask for. -/
def shareOf (program : String) (sign : Char) (g : Given) : Running Share := do
  match (g.options.reverse.find? fun (c, _) => c = 'n' || c = 'c') with
  | none => pure ⟨true, false, 10⟩
  | some (c, t) =>
    let far := t.head? = some sign
    let body := if t.head? = some '-' || t.head? = some '+' then t.tail else t
    match amount? body with
    | some n => pure ⟨c = 'n', far, n⟩
    | none =>
      let unit := if c = 'n' then "lines" else "bytes"
      refuse program 1 (("invalid number of " ++ unit ++ ": ").toList ++ enclosed body)

/-- Writes shares of sources, under their names where there are more. -/
def shares (program : String) (args : List Text) (sign : Char) (cut : Share → Text → Text)
    (more : String) : Running Nat := do
  let o : Options := ⟨program, "qv" ++ more, "nc", [("lines", 'n'), ("bytes", 'c'), ("quiet", 'q'),
    ("silent", 'q'), ("verbose", 'v')], 1⟩
  let g ← o.read (withNumber args)
  let share ← shareOf program sign g
  let named := g.has 'v' || (1 < g.operands.length && !g.has 'q')
  let mut status := 0
  let mut first := true
  for path in if g.operands.isEmpty then [['-']] else g.operands do
    let heading : Text :=
      let name := if path = ['-'] then "standard input".toList else path
      if named then
        (if first then [] else ['\n']) ++ "==> ".toList ++ name ++ " <==\n".toList
      else []
    if path = ['-'] then
      let t := (← pending 0).getD []
      let part := cut share t
      let seeks : Bool ← match ← channel? 0 with
        | some i =>
          match ← channelAt i with
          | .file _ _ _ => pure (program = "head")
          | _ => pure false
        | none => pure false
      consume 0 (if seeks then part.length else t.length)
      out (heading ++ part)
      first := false
    else match ← source path with
      | .ok t => do
        out (heading ++ cut share t)
        first := false
      | .error .folder => do
        out heading
        first := false
        complainAs program ("error reading ".toList ++ enclosed path ++ ": Is a directory".toList)
        status := 1
      | .error fault => do
        complainAs program
          ("cannot open ".toList ++ enclosed path ++ " for reading: ".toList ++ faultText fault)
        status := 1
  pure status

def head (args : List Text) : Running Nat :=
  shares "head" args '-' (fun s t =>
    let keep (size : Nat) : Nat := if s.far then size - s.amount else s.amount
    if s.lines then
      let ls := linesWithEnds t
      (ls.take (keep ls.length)).flatten
    else t.take (keep t.length)) ""

def tail (args : List Text) : Running Nat :=
  shares "tail" args '+' (fun s t =>
    let skip (size : Nat) : Nat := if s.far then s.amount - 1 else size - s.amount
    if s.lines then
      let ls := linesWithEnds t
      (ls.drop (skip ls.length)).flatten
    else t.drop (skip t.length)) "fF"

/-! ### wc -/

/-- What is counted in a text. -/
structure Counts where
  lines : Nat
  words : Nat
  bytes : Nat
  widest : Nat

def countsOf (t : Text) : Counts :=
  let isBlank (c : Char) : Bool := c = ' ' || ('\t' ≤ c && c ≤ '\x0d')
  let words := (t.foldl (fun (n, inside) c =>
    if isBlank c then (n, false)
    else if inside || c < ' ' || '~' < c then (n, inside)
    else (n + 1, true)) (0, false)).1
  let width (l : Text) : Nat := l.foldl (fun n c =>
    if c = '\t' then n / 8 * 8 + 8 else if ' ' ≤ c && c ≤ '~' then n + 1 else n) 0
  ⟨t.count '\n', words, t.length, ((Text.splitOn '\n' t).map width).foldl max 0⟩

def wc (args : List Text) : Running Nat := do
  let o : Options := ⟨"wc", "clmwL", "", [("bytes", 'c'), ("chars", 'm'), ("lines", 'l'),
    ("words", 'w'), ("max-line-length", 'L')], 1⟩
  let g ← o.read args
  let all := g.options.isEmpty
  let wanted (c : Char) : Bool := g.has c || all && (c = 'l' || c = 'w' || c = 'c')
  let columns := "lwmcL".toList.filter wanted
  let place ← match ← channel? 0 with
    | some i => channelAt i
    | none => pure .nothing
  let sizes ← (if g.operands.isEmpty then [['-']] else g.operands).mapM fun path => do
    if path = ['-'] then
      match place with
      | .file _ _ _ => return some ((← pending 0).getD []).length
      | _ => pure none
    else match ← locate path with
      | .file _ content _ => pure (some content.length)
      | .vacant _ | .lost _ => pure (some 0)
      | _ => pure none
  let single := columns.length = 1 && g.operands.length ≤ 1
  let total := (sizes.map (·.getD 0)).foldl (· + ·) 0
  let width :=
    if single then 1
    else max (if sizes.any Option.isNone then 7 else 1) (digits total).length
  let line (n : Counts) (name : Text) : Text :=
    let value (c : Char) : Nat :=
      match c with
      | 'l' => n.lines
      | 'w' => n.words
      | 'L' => n.widest
      | _ => n.bytes
    Text.join [' '] (columns.map fun c => padded width (digits (value c))) ++
      (if name.isEmpty then [] else ' ' :: name) ++ ['\n']
  let mut sum : Counts := ⟨0, 0, 0, 0⟩
  let mut status := 0
  for path in if g.operands.isEmpty then [['-']] else g.operands do
    let name := if g.operands.isEmpty then [] else path
    match ← source path with
    | .ok t => do
      let n := countsOf t
      sum := ⟨sum.lines + n.lines, sum.words + n.words, sum.bytes + n.bytes,
        max sum.widest n.widest⟩
      out (line n name)
    | .error fault => do
      complainAs "wc" (plainReason path fault)
      if fault = .folder then out (line ⟨0, 0, 0, 0⟩ name)
      status := 1
  if 1 < g.operands.length then out (line sum "total".toList)
  pure status

/-! ### Others -/

def tee (args : List Text) : Running Nat := do
  let o : Options := ⟨"tee", "ai", "", [("append", 'a')], 1⟩
  let g ← o.read args
  let t ← input
  let mut status := 0
  for path in g.operands do
    if let some fault ← save (if g.has 'a' then .append else .overwrite) path t then
      complainAs "tee" (plainReason path fault)
      status := 1
  out t
  pure status

/-- Lines cut to a width. -/
def foldLine (width : Nat) : Nat → Text → Text
  | 0, l => l
  | n + 1, l =>
    if l.length ≤ width then l else l.take width ++ '\n' :: foldLine width n (l.drop width)

def fold (args : List Text) : Running Nat := do
  let o : Options := ⟨"fold", "bs", "w", [("width", 'w')], 1⟩
  let g ← o.read args
  let width := ((g.value? 'w').bind amount?).getD 80
  forSources "fold" g.operands plainReason fun _ t =>
    out ((linesWithEnds t).flatMap fun l =>
      let body := if l.getLast? = some '\n' then l.dropLast else l
      foldLine (max 1 width) body.length body ++ (if l.getLast? = some '\n' then ['\n'] else []))

def nl (args : List Text) : Running Nat := do
  let o : Options := ⟨"nl", "p", "bwsvin", [], 1⟩
  let g ← o.read args
  let natural (c : Char) (standard : Nat) : Nat := ((g.value? c).bind amount?).getD standard
  let width := natural 'w' 6
  let separator := (g.value? 's').getD ['\t']
  let step := natural 'i' 1
  let style := (g.value? 'n').getD "rn".toList
  let (texts, status) ← sources "nl" g.operands
  let number (n : Nat) : Text :=
    let ds := digits n
    if style = "ln".toList then ds ++ List.replicate (width - ds.length) ' '
    else if style = "rz".toList then List.replicate (width - ds.length) '0' ++ ds
    else padded width ds
  let show' (state : Nat × List Text) (l : Text) : Nat × List Text :=
    let (n, acc) := state
    if l.isEmpty && g.value? 'b' ≠ some ['a'] || g.value? 'b' = some ['n'] then
      (n, (List.replicate (width + separator.length) ' ' ++ l ++ ['\n']) :: acc)
    else (n + step, (number n ++ separator ++ l ++ ['\n']) :: acc)
  let lines := linesOf (texts.map Prod.snd).flatten
  out (lines.foldl show' (natural 'v' 1, [])).2.reverse.flatten
  pure status

/-- Lines side by side, with delimiters in turn between them. -/
def beside (delimiters : List Text) (ls : List Text) : Text :=
  let between (i : Nat) : Text := delimiters.getD (i % max 1 delimiters.length) []
  (ls.zipIdx.flatMap fun (l, i) => if i = 0 then l else between (i - 1) ++ l) ++ ['\n']

def paste (args : List Text) : Running Nat := do
  let o : Options := ⟨"paste", "s", "d", [("serial", 's'), ("delimiters", 'd')], 1⟩
  let g ← o.read args
  let rec delimiters : Text → List Text
    | '\\' :: 'n' :: r => ['\n'] :: delimiters r
    | '\\' :: 't' :: r => ['\t'] :: delimiters r
    | '\\' :: '0' :: r => [] :: delimiters r
    | '\\' :: c :: r => [c] :: delimiters r
    | c :: r => [c] :: delimiters r
    | [] => []
  let between := delimiters ((g.value? 'd').getD ['\t'])
  let (texts, status) ← sources "paste" g.operands
  if status ≠ 0 then pure status
  else
    let columns := texts.map fun (_, t) => linesOf t
    if g.has 's' then out (columns.flatMap (beside between))
    else
      let height := (columns.map List.length).foldl max 0
      out ((List.range height).flatMap fun i => beside between (columns.map (·.getD i [])))
    pure status

/-- The lines of two sorted lists, those in the first, in the second and in both apart. -/
def compared : Nat → List Text → List Text → List (Nat × Text)
  | 0, _, _ => []
  | _ + 1, [], [] => []
  | n + 1, a :: s, [] => (1, a) :: compared n s []
  | n + 1, [], b :: t => (2, b) :: compared n [] t
  | n + 1, a :: s, b :: t =>
    if a = b then (3, a) :: compared n s t
    else if String.ofList a < String.ofList b then (1, a) :: compared n s (b :: t)
    else (2, b) :: compared n (a :: s) t

def comm (args : List Text) : Running Nat := do
  let o : Options := ⟨"comm", "123", "", [], 1⟩
  let g ← o.read args
  match g.operands with
  | [a, b] => do
    match ← source a with
    | .error fault => refuse "comm" 1 (plainReason a fault)
    | .ok s =>
      match ← source b with
      | .error fault => refuse "comm" 1 (plainReason b fault)
      | .ok t =>
        let (ls, ms) := (linesOf s, linesOf t)
        let hides (n : Nat) : Bool := g.has (Char.ofNat (48 + n))
        for (n, l) in compared (ls.length + ms.length) ls ms do
          let tabs := ((List.range (n - 1)).filter fun i => !hides (i + 1)).length
          if !hides n then out (List.replicate tabs '\t' ++ l ++ ['\n'])
        pure 0
  | [] => o.misused "missing operand".toList
  | [a] => o.misused ("missing operand after ".toList ++ enclosed a)
  | _ :: _ :: c :: _ => o.misused ("extra operand ".toList ++ enclosed c)

end Stencil.Shell.Utility
