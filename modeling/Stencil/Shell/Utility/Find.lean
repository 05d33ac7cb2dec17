import Stencil.Shell.Utility.Moves

/-! The program that walks through directories and asks questions about what it finds. -/
namespace Stencil.Shell.Utility

open Running

namespace Find

/-- How a number is compared. -/
inductive Measure where
  | exactly
  | more
  | less
  deriving DecidableEq, Repr

/-- What is asked about something that is found, or done with it. -/
inductive Test where
  | always (value : Bool)
  | named (fold : Bool) (p : Pattern)
  | path (fold : Bool) (p : Pattern)
  | kind (letters : Text)
  | empty
  | size (m : Measure) (n unit : Nat)
  | runs
  | print (ending : Char)
  | printBy (format : Text)
  | delete
  | run (command : List Text)
  /-- Keeps a path for a command that gets all of them at the end. -/
  | gather (number : Nat)
  | prune
  | quit
  | negated (t : Test)
  | both (a b : Test)
  | either (a b : Test)

namespace Test

/-- Whether something is done with what is found. -/
def acts : Test → Bool
  | print _ | printBy _ | delete | run _ | gather _ => true
  | quit => false
  | negated t => t.acts
  | both a b | either a b => a.acts || b.acts
  | _ => false

end Test

/-- What options say about the walk. -/
structure Walk where
  low : Nat
  high : Option Nat
  depthFirst : Bool
  /-- The commands that get all paths at the end. -/
  commands : List (List Text)

structure Reading where
  args : List Text
  walk : Walk

abbrev Reader := StateT Reading (Except Text)

def argumentOf (name : Text) : Reader Text := do
  let s ← get
  match s.args with
  | a :: rest => do
    set { s with args := rest }
    pure a
  | [] => throw ("missing argument to \x60".toList ++ name ++ ['\''])

/-- The pattern that a text writes. -/
def patternOf (fold : Bool) (t : Text) : Pattern :=
  Pattern.ofList ((if fold then t.map Char.toLower else t).map fun c => ⟨c, true⟩)

def measured (name t : Text) : Reader (Measure × Text) := do
  match t with
  | '+' :: r => pure (.more, r)
  | '-' :: r => pure (.less, r)
  | [] => throw ("invalid argument \x60'".toList ++ " to \x60".toList ++ name ++ ['\''])
  | r => pure (.exactly, r)

/-- Reads the words of a command up to its end, and says whether it gets all paths at once. -/
def commandOf (name : Text) : Reader (List Text × Bool) := do
  let s ← get
  let isEnd (a : Text) : Bool := a = [';'] || a = ['+']
  let rec cut : List Text → Text → Option (List Text × Bool × List Text)
    | [], _ => none
    | a :: rest, before =>
      if a = [';'] then some ([], false, rest)
      else if a = ['+'] && before = "\x7b\x7d".toList then some ([], true, rest)
      else (cut rest a).map fun (ws, all, rest) => (a :: ws, all, rest)
  match cut s.args [] with
  | none => throw ("missing argument to \x60".toList ++ name ++ ['\''])
  | some (ws, all, rest) => do
    if ws.isEmpty || s.args.head?.any isEnd then
      throw ("missing argument to \x60".toList ++ name ++ ['\''])
    set { s with args := rest }
    pure (ws, all)

def natural (name t : Text) : Reader Nat := do
  match (String.ofList t).toNat? with
  | some n => pure n
  | none =>
    throw ("Expected a positive decimal integer argument to ".toList ++ name ++
      ", but got ".toList ++ enclosed t)

/-- Reads a question that its name begins. -/
def primary (name : Text) : Reader Test := do
  let argument : Reader Text := argumentOf name
  let option (f : Walk → Walk) : Reader Test := do
    modify fun s => { s with walk := f s.walk }
    pure (.always true)
  match String.ofList name with
  | "-name" => return .named false (patternOf false (← argument))
  | "-iname" => return .named true (patternOf true (← argument))
  | "-path" | "-wholename" => return .path false (patternOf false (← argument))
  | "-ipath" | "-iwholename" => return .path true (patternOf true (← argument))
  | "-type" => do
    let t ← argument
    match t.find? fun c => !"bcdpflsD,".toList.any (· = c) with
    | some c => throw ("Unknown argument to -type: ".toList ++ [c])
    | none => pure (.kind t)
  | "-empty" => pure .empty
  | "-size" => do
    let t ← argument
    let (m, r) ← measured name t
    let ds := r.takeWhile Char.isDigit
    let unit : Nat := match r.drop ds.length with
      | ['c'] => 1
      | ['w'] => 2
      | ['k'] => 1024
      | ['M'] => 1048576
      | _ => 512
    if ds.isEmpty then throw ("Invalid argument \x60".toList ++ t ++ "' to -size".toList)
    pure (.size m (Number.digitsOf 10 ds).1 unit)
  | "-executable" => pure .runs
  | "-true" | "-readable" | "-writable" | "-noleaf" | "-xdev" | "-mount" | "-follow" =>
    pure (.always true)
  | "-false" => pure (.always false)
  | "-print" => pure (.print '\n')
  | "-print0" => pure (.print '\x00')
  | "-printf" => return .printBy (← argument)
  | "-delete" => do
    let _ ← option fun w => { w with depthFirst := true }
    pure .delete
  | "-prune" => pure .prune
  | "-quit" => pure .quit
  | "-depth" | "-d" => option fun w => { w with depthFirst := true }
  | "-maxdepth" => do
    let n ← natural name (← argument)
    option fun w => { w with high := some n }
  | "-mindepth" => do
    let n ← natural name (← argument)
    option fun w => { w with low := n }
  | "-exec" | "-execdir" => do
    let (ws, all) ← commandOf name
    if all then do
      let walk := (← get).walk
      modify fun s => { s with walk := { walk with commands := walk.commands ++ [ws.dropLast] } }
      pure (.gather walk.commands.length)
    else pure (.run ws)
  | _ => throw ("unknown predicate \x60".toList ++ name ++ ['\''])

mutual

/-- Reads questions of which one must hold, as many as are allowed. -/
def disjunction : Nat → Reader Test
  | 0 => throw []
  | n + 1 => do
    let a ← conjunction n
    match (← get).args with
    | a' :: rest =>
      if a' = "-o".toList || a' = "-or".toList then do
        modify fun s => { s with args := rest }
        return .either a (← disjunction n)
      else pure a
    | [] => pure a

/-- Reads questions that must all hold. -/
def conjunction : Nat → Reader Test
  | 0 => throw []
  | n + 1 => do
    let a ← single n
    match (← get).args with
    | [] => pure a
    | next :: rest =>
      if next = "-a".toList || next = "-and".toList then do
        modify fun s => { s with args := rest }
        return .both a (← conjunction n)
      else if next = "-o".toList || next = "-or".toList || next = [')'] then pure a
      else return .both a (← conjunction n)

/-- Reads one question. -/
def single : Nat → Reader Test
  | 0 => throw []
  | n + 1 => do
    let s ← get
    match s.args with
    | [] => throw "expected an expression".toList
    | name :: rest => do
      set { s with args := rest }
      if name = ['!'] || name = "-not".toList then return .negated (← single n)
      else if name = ['('] then do
        let t ← disjunction n
        match (← get).args with
        | [')'] :: rest => do
          modify fun s => { s with args := rest }
          pure t
        | _ =>
          throw ("invalid expression; I was expecting to find a ')' somewhere " ++
            "but did not see one.").toList
      else if name.head? = some '-' && 1 < name.length then primary name
      else throw ("paths must precede expression: \x60".toList ++ name ++ ['\''])

end

/-! ### Walking -/

/-- Something that is found: its path, the path that the walk began with, and how deep it is. -/
structure Found where
  path : Text
  start : Text
  depth : Nat
  place : Directory.Place

/-- What the walk keeps: whether what is inside is left out, whether it is ended, whether all went
well, and the paths that are gathered. -/
structure Trail where
  pruned : Bool
  ended : Bool
  fine : Bool
  gathered : List (Nat × Text)

abbrev Walking := StateT Trail Running

/-- A text about something that is found, with its conversions filled in. -/
def described (x : Found) : Nat → Text → Text
  | 0, _ | _, [] => []
  | n + 1, '%' :: c :: r =>
    let value : Text := match c with
      | 'p' => x.path
      | 'f' => lastName x.path
      | 'h' => beforeLast x.path
      | 'P' => (x.path.drop x.start.length).dropWhile (· = '/')
      | 'H' => x.start
      | 's' => digits (sizeOf x.place)
      | 'd' => digits x.depth
      | 'm' => modeDigits x.place
      | 'M' => modeText x.place
      | 'y' => match x.place with
        | .folder _ => ['d']
        | _ => ['f']
      | '%' => ['%']
      | c => ['%', c]
    value ++ described x n r
  | n + 1, '\\' :: c :: r =>
    let sign : Text := match c with
      | 'n' => ['\n']
      | 't' => ['\t']
      | '0' => ['\x00']
      | '\\' => ['\\']
      | c => ['\\', c]
    sign ++ described x n r
  | n + 1, c :: r => c :: described x n r

section

variable (launch : Text → List Text → Running Unit)

/-- Whether something is as it is asked, once what is to be done with it is done. -/
def holds (x : Found) : Test → Walking Bool
  | .always value => pure value
  | .named fold p =>
    let name := lastName x.path
    pure (p.fits (if fold then name.map Char.toLower else name))
  | .path fold p => pure (p.fits (if fold then x.path.map Char.toLower else x.path))
  | .kind letters =>
    pure (match x.place with
      | .folder _ => letters.any (· = 'd')
      | .null => letters.any (· = 'c')
      | _ => letters.any (· = 'f'))
  | .empty => do
    match x.place with
    | .folder names => return ((← getThe State).directory.children names).isEmpty
    | .file _ content _ => pure content.isEmpty
    | _ => pure false
  | .size m n unit =>
    let size := (sizeOf x.place + unit - 1) / unit
    pure (match m with
      | .exactly => size = n
      | .more => n < size
      | .less => size < n)
  | .runs => pure (match x.place with
      | .folder _ | .file _ _ true => true
      | _ => false)
  | .print ending => do
    out (x.path ++ [ending])
    pure true
  | .printBy format => do
    out (described x (format.length + 1) format)
    pure true
  | .delete => do
    match x.place with
    | .folder names =>
      if names.isEmpty then pure true
      else if ((← getThe State).directory.children names).isEmpty then do
        editing (·.remove names)
        pure true
      else do
        complainAs "find"
          ("cannot delete ".toList ++ enclosed x.path ++ ": Directory not empty".toList)
        modify fun s => { s with fine := false }
        pure false
    | .file names _ _ => do
      editing (·.remove names)
      pure true
    | _ => pure false
  | .run command => do
    let call := command.map fun a => Text.replace a "\x7b\x7d".toList x.path
    launch (call.headD []) call.tail
    return (← getThe State).status = 0
  | .gather n => do
    modify fun s => { s with gathered := (n, x.path) :: s.gathered }
    pure true
  | .prune => do
    modify fun s => { s with pruned := true }
    pure true
  | .quit => do
    modify fun s => { s with ended := true }
    pure false
  | .negated t => do return !(← holds x t)
  | .both a b => do if ← holds x a then holds x b else pure false
  | .either a b => do if ← holds x a then pure true else holds x b

/-- Walks through what is found, as deep as is allowed. -/
def visit (t : Test) (w : Walk) : Nat → Found → Walking Unit
  | 0, _ => pure ()
  | n + 1, x => do
    if (← getThe Trail).ended then return
    let ask : Walking Unit := do
      if w.low ≤ x.depth then let _ ← holds launch x t
    modifyThe Trail fun s => { s with pruned := false }
    if !w.depthFirst then ask
    let enters := !(← getThe Trail).pruned && w.high.all (x.depth < ·)
    match x.place with
    | .folder _ =>
      if enters then
        let d := (← getThe State).directory
        for name in Expansion.sorted (Expansion.namesAt d x.place) do
          visit t w n
            ⟨Path.join x.path name, x.start, x.depth + 1, d.locate x.place (ofUtf8 name)⟩
    | _ => pure ()
    if w.depthFirst then
      if !(← getThe Trail).ended then ask

end

end Find

open Find in
/-- Walks through directories and runs commands, which `launch` does. -/
def find (launch : Text → List Text → Running Unit) (args : List Text) : Running Nat := do
  let isPath (a : Text) : Bool :=
    !(a.head? = some '-' && 1 < a.length) && a ≠ ['('] && a ≠ [')'] && a ≠ ['!'] && a ≠ [',']
  let args := args.dropWhile fun a => a = "-L".toList || a = "-P".toList || a = "-H".toList
  let paths := args.takeWhile isPath
  let rest := args.drop paths.length
  let start : Walk := ⟨0, none, false, []⟩
  let reading : Except Text (Test × Reading) :=
    if rest.isEmpty then .ok (.always true, ⟨[], start⟩)
    else (disjunction (8 * rest.length + 8)).run ⟨rest, start⟩
  match reading with
  | .error e => refuse "find" 1 e
  | .ok (t, s) => do
    match s.args with
    | [')'] :: _ => refuse "find" 1 "you have too many ')'".toList
    | a :: _ => refuse "find" 1 ("paths must precede expression: \x60".toList ++ a ++ ['\''])
    | [] => pure ()
    let t := if t.acts then t else .both t (.print '\n')
    let mut trail : Trail := ⟨false, false, true, []⟩
    for path in if paths.isEmpty then [['.']] else paths do
      match ← standing path with
      | .error fault => do
        complainAs "find" (enclosed path ++ ": ".toList ++ faultText fault)
        trail := { trail with fine := false }
      | .ok place => do
        let (_, after) ← (visit launch t s.walk 1000 ⟨path, path, 0, place⟩).run trail
        trail := after
    for (command, n) in s.walk.commands.zipIdx do
      let found := (trail.gathered.reverse.filter (·.1 = n)).map Prod.snd
      if !found.isEmpty then
        launch (command.headD []) (command.tail ++ found)
        if (← get).status ≠ 0 then trail := { trail with fine := false }
    pure (if trail.fine then 0 else 1)

end Stencil.Shell.Utility
