import Stencil.Shell.Utility.Listing

/-! The program that runs another one with arguments from its input. -/
namespace Stencil.Shell.Utility

open Running

namespace Arguments

/-- A word at the front, in which quotation marks and backslashes keep characters, and what is left;
or the quotation mark that is not closed. -/
def word (isEnd : Char → Bool) : Text → Except Char (Text × Text)
  | [] => .ok ([], [])
  | '\\' :: c :: r => do
    let (w, rest) ← word isEnd r
    pure (c :: w, rest)
  | c :: r =>
    if isEnd c then .ok ([], c :: r)
    else if c = '\'' || c = '"' then quoted isEnd c r
    else do
      let (w, rest) ← word isEnd r
      pure (c :: w, rest)
termination_by t => t.length
where
  quoted (isEnd : Char → Bool) (mark : Char) (t : Text) : Except Char (Text × Text) :=
    match t with
    | [] => .error mark
    | c :: r =>
      if c = mark then word isEnd r
      else if c = '\n' then .error mark
      else do
        let (w, rest) ← quoted isEnd mark r
        pure (c :: w, rest)
  termination_by t.length

def isBlank (c : Char) : Bool := c = ' ' || c = '\t'

/-- The words of each line, as many as are allowed. -/
def lines : Nat → Text → Except Char (List (List Text))
  | 0, _ => .ok [[]]
  | n + 1, t =>
    match t.dropWhile isBlank with
    | [] => .ok [[]]
    | '\n' :: r => do
      let more ← lines n r
      pure ([] :: more)
    | t => do
      let (w, rest) ← word (fun c => isBlank c || c = '\n') t
      match ← lines n rest with
      | first :: more => pure ((w :: first) :: more)
      | [] => pure [[w]]

/-- The lines, each as one word, without those that are empty; as many as are allowed. -/
def wholeLines : Nat → Text → Except Char (List Text)
  | 0, _ => .ok []
  | n + 1, t =>
    match t.dropWhile fun c => isBlank c || c = '\n' with
    | [] => .ok []
    | t => do
      let (w, rest) ← word (· = '\n') t
      let more ← wholeLines n rest
      pure (w :: more)

/-- Groups of so many. -/
def groups {α : Type} (size : Nat) : Nat → List α → List (List α)
  | 0, _ | _, [] => []
  | n + 1, l => l.take size :: groups size n (l.drop size)

/-- The character that an option names as the end of a word. -/
def delimiter (t : Text) : Char :=
  match t with
  | ['\\', 'n'] => '\n'
  | ['\\', 't'] => '\t'
  | ['\\', '0'] => '\x00'
  | t => t.headD '\n'

end Arguments

open Arguments in
/-- Runs commands, which `launch` does, with the words of the input. -/
def xargs (launch : Text → List Text → Running Unit) (args : List Text) : Running Nat := do
  let o : Options := ⟨"xargs", "0rtxpo", "nIdLPaEs", [("null", '0'), ("no-run-if-empty", 'r'),
    ("verbose", 't'), ("max-args", 'n'), ("replace", 'I'), ("delimiter", 'd'), ("max-lines", 'L'),
    ("max-procs", 'P'), ("arg-file", 'a')], 1⟩
  let g ← o.readFront (args.map fun a => if a = ['-', 'i'] then "-I\x7b\x7d".toList else a)
  let positive (c : Char) : Running (Option Nat) := do
    match g.value? c with
    | none => pure none
    | some t =>
      match (String.ofList t).toNat? with
      | none =>
        o.misused ("invalid number \"".toList ++ t ++ "\" for -".toList ++ c :: " option".toList)
      | some 0 =>
        o.misused ("value 0 for -".toList ++ c :: " option should be >= 1".toList)
      | some n => pure (some n)
  let most ← positive 'n'
  let mostLines ← positive 'L'
  let t ← match g.value? 'a' with
    | none => input
    | some path =>
      match ← source path with
      | .ok t => pure t
      | .error fault =>
        refuse "xargs" 1 ("Cannot open input file ".toList ++ enclosed path ++ ": ".toList ++
          faultText fault)
  let given : Except Char (List (List Text)) :=
    if g.has '0' || (g.value? 'd').isSome then
      let mark := if g.has '0' then '\x00' else delimiter ((g.value? 'd').getD [])
      let ws := Text.splitOn mark t
      .ok ((if ws.getLast? = some [] then ws.dropLast else ws).map fun w => [w])
    else if (g.value? 'I').isSome then (wholeLines (t.length + 1) t).map fun ws =>
      ws.map fun w => [w]
    else (lines (t.length + 1) t).map fun ls => ls.filter (!List.isEmpty ·)
  match given with
  | .error mark =>
    let kind := if mark = '"' then "double" else "single"
    refuse "xargs" 1 (s!"unmatched {kind} quote; by default quotes are special to xargs " ++
      "unless you use the -0 option").toList
  | .ok ls => do
    let command := if g.operands.isEmpty then ["echo".toList] else g.operands
    let words := ls.flatten
    let calls : List (List Text) := match g.value? 'I' with
      | some mark => words.map fun w => command.map fun a => Text.replace a mark w
      | none =>
        let parts := match mostLines, most with
          | some n, _ => (groups n ls.length ls).map List.flatten
          | none, some n => groups n words.length words
          | none, none => if words.isEmpty then [] else [words]
        (if parts.isEmpty && !g.has 'r' then [[]] else parts).map fun ws => command ++ ws
    let mut status := 0
    for call in calls do
      if status < 124 then
        if g.has 't' then err (Text.join [' '] call ++ ['\n'])
        let i ← connect .nothing
        let before := (← get).descriptors
        modify fun s => { s with descriptors := s.descriptors.insert 0 i }
        Running.keeping (fun _ s => { s with descriptors := before })
          (launch (call.headD []) call.tail)
        let n := (← get).status
        if n = 255 then
          complainAs "xargs" (call.headD [] ++ ": exited with status 255; aborting".toList)
          status := 124
        else if n = 126 || n = 127 then status := n
        else if n ≠ 0 then status := 123
    pure status

end Stencil.Shell.Utility
