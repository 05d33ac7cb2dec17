import Stencil.Shell.Builtin
import Stencil.Shell.Utility.Options

/-! Programs that write their arguments, or what is known without any input. -/
namespace Stencil.Shell.Utility

open Running

/-! ### echo and printf -/

/-- A text with its escapes read, as many as are allowed, and whether it ends all output. -/
def echoed : Nat → Text → Text × Bool
  | 0, _ | _, [] => ([], false)
  | n + 1, '\\' :: c :: r =>
    let more (front : Text) (r : Text) : Text × Bool :=
      let (t, ended) := echoed n r
      (front ++ t, ended)
    let coded (base size : Nat) (r : Text) : Option (Text × Text) :=
      let ds := (r.take size).takeWhile fun d => (Number.digit? d).any (· < base)
      if ds.isEmpty then none
      else some ([Char.ofNat ((Number.digitsOf base ds).1 % 256)], r.drop ds.length)
    match c with
    | 'c' => ([], true)
    | '0' =>
      match coded 8 3 r with
      | some (front, r) => more front r
      | none => more ['\x00'] r
    | 'x' =>
      match coded 16 2 r with
      | some (front, r) => more front r
      | none => more ['\\', 'x'] r
    | c =>
      if '1' ≤ c && c ≤ '7' then
        match coded 8 3 (c :: r) with
        | some (front, r) => more front r
        | none => more ['\\', c] r
      else match Format.escaped? c with
        | some k => more [k] r
        | none => more ['\\', c] r
  | n + 1, c :: r =>
    let (t, ended) := echoed n r
    (c :: t, ended)

def echo (args : List Text) : Running Nat := do
  let isOption (a : Text) : Bool := match a with
    | '-' :: c :: r => (c :: r).all fun c => c = 'n' || c = 'e' || c = 'E'
    | _ => false
  let options := args.takeWhile isOption
  let t := Text.join [' '] (args.drop options.length)
  let letters := options.flatten.filter fun c => c ≠ '-'
  let reads := (letters.filter (· ≠ 'n')).getLast? = some 'e'
  let (t, ended) := if reads then echoed t.length t else (t, false)
  out (if ended || letters.any (· = 'n') then t else t ++ ['\n'])
  pure 0

/-- What is wrong with an argument of a format, as a program says it. -/
def rephrased (t : Text) : Text :=
  let endings : List (String × String) :=
    [(": expected numeric value", ": expected a numeric value"),
      (": not completely converted", ": value not completely converted"),
      (": Numerical result out of range", ": Numerical result out of range"),
      (": invalid directive", ": invalid conversion specification")]
  match endings.find? fun (old, _) => old.toList.isSuffixOf t with
  | some (old, new) =>
    let front := t.take (t.length - old.length)
    (if new = ": invalid conversion specification" then front else enclosed front) ++ new.toList
  | none => t

def printf (args : List Text) : Running Nat := do
  let o : Options := ⟨"printf", "", "", [], 1⟩
  match if args.head? = some ['-', '-'] then args.tail else args with
  | [] => o.misused "missing operand".toList
  | t :: args => do
    let finish (p : Format.Printing) : Running Unit := do
      for line in p.complaints.reverse do complainAs "printf" (rephrased line)
      out p.pieces.reverse.flatten
    match Format.print t args with
    | .ok p => do
      finish p
      if let a :: _ := p.args then
        if !p.ended then
          complainAs "printf" ("warning: ignoring excess arguments, starting with ".toList ++
            enclosed a)
      pure (if p.complaints.isEmpty then 0 else 1)
    | .error (reason, p) => do
      finish p
      refuse "printf" 1 (rephrased reason)

/-! ### Conditions and settings -/

/-- Whether a condition holds, as a status. -/
def condition (args : List Text) : Running Nat :=
  tryCatch (do return if ← Condition.holds (args.length + 1) args then 0 else 1) fun
    | .failed _ => pure 2
    | j => throw j

def bracket (args : List Text) : Running Nat := do
  if args.getLast? = some [']'] then condition args.dropLast
  else refuse "[" 2 "missing ']'".toList

def printenv (args : List Text) : Running Nat := do
  let o : Options := ⟨"printenv", "0", "", [("null", '0')], 2⟩
  let g ← o.readFront args
  let ending := if g.has '0' then ['\x00'] else ['\n']
  let vs := (← get).bindings
  if g.operands.isEmpty then
    for (name, v) in vs do
      if v.exported then out (name ++ '=' :: v.value.getD [] ++ ending)
    pure 0
  else do
    let mut status := 0
    for name in g.operands do
      match vs.get? name with
      | some ⟨some t, true, _⟩ => out (t ++ ending)
      | _ => status := 1
    pure status

def pwd (args : List Text) : Running Nat := do
  let o : Options := ⟨"pwd", "LP", "", [("logical", 'L'), ("physical", 'P')], 1⟩
  let g ← o.read args
  if !g.operands.isEmpty then complainAs "pwd" "ignoring non-option arguments".toList
  out ((← get).path ++ ['\n'])
  pure 0

/-- The seconds of a span of time, which may be told in minutes, hours and days. -/
def seconds? (t : Text) : Option Float :=
  match t.getLast? with
  | some 's' => Decimal.read? t.dropLast
  | some 'm' => (Decimal.read? t.dropLast).map (60 * ·)
  | some 'h' => (Decimal.read? t.dropLast).map (3600 * ·)
  | some 'd' => (Decimal.read? t.dropLast).map (86400 * ·)
  | _ => Decimal.read? t

/-- Waits no longer than it takes to look at the spans of time. -/
def sleep (args : List Text) : Running Nat := do
  let o : Options := ⟨"sleep", "", "", [], 1⟩
  let g ← o.read args
  if g.operands.isEmpty then o.misused "missing operand".toList
  let wrong := g.operands.filter fun t => !(seconds? t).any fun x => 0 ≤ x
  if wrong.isEmpty then pure 0
  else do
    let name ← calledAs "sleep"
    for t in wrong.dropLast do
      complainAs "sleep" ("invalid time interval ".toList ++ enclosed t)
    o.misused ("invalid time interval ".toList ++ enclosed (wrong.getLastD name))

/-- How often a line is repeated that is repeated without end. -/
def manyLines : Nat := 20000

def yes (args : List Text) : Running Nat := do
  let line := (if args.isEmpty then ['y'] else Text.join [' '] args) ++ ['\n']
  out (List.replicate manyLines line).flatten
  pure 0

/-! ### The system -/

def whoami (args : List Text) : Running Nat := do
  let o : Options := ⟨"whoami", "", "", [], 1⟩
  match (← o.read args).operands with
  | [] => do
    out "root\n".toList
    pure 0
  | t :: _ => o.misused ("extra operand ".toList ++ enclosed t)

def id (args : List Text) : Running Nat := do
  let o : Options := ⟨"id", "ugGnrz", "", [("user", 'u'), ("group", 'g'), ("groups", 'G'),
    ("name", 'n'), ("real", 'r')], 1⟩
  let g ← o.read args
  let number := if g.has 'n' then "root\n" else "0\n"
  out (if g.has 'u' || g.has 'g' || g.has 'G' then number
    else "uid=0(root) gid=0(root) groups=0(root)\n").toList
  pure 0

def uname (args : List Text) : Running Nat := do
  let o : Options := ⟨"uname", "asnrvmpio", "", [("all", 'a'), ("kernel-name", 's'),
    ("machine", 'm'), ("operating-system", 'o')], 1⟩
  let g ← o.read args
  match g.operands with
  | t :: _ => o.misused ("extra operand ".toList ++ enclosed t)
  | [] => do
    let parts := (if g.has 's' || g.options.isEmpty then ["Linux"] else []) ++
      (if g.has 'm' then ["x86_64"] else []) ++ (if g.has 'o' then ["GNU/Linux"] else [])
    out (" ".intercalate parts ++ "\n").toList
    pure 0

def tty (args : List Text) : Running Nat := do
  let o : Options := ⟨"tty", "s", "", [("silent", 's'), ("quiet", 's')], 2⟩
  let g ← o.read args
  if !g.has 's' then out "not a tty\n".toList
  pure 1

end Stencil.Shell.Utility
