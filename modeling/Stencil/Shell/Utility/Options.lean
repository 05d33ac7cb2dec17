import Stencil.Shell.State

/-! What the programs share: options, operands, sources of input and complaints. -/
namespace Stencil.Shell.Utility

open Running

/-- The options and the operands among arguments. -/
structure Given where
  options : List (Char × Text)
  operands : List Text

namespace Given

variable (g : Given)

def has (c : Char) : Bool := g.options.any (·.1 = c)

/-- The value of the last option of a letter. -/
def value? (c : Char) : Option Text := (g.options.reverse.find? (·.1 = c)).map Prod.snd

/-- The values of the options of a letter. -/
def values (c : Char) : List Text := (g.options.filter (·.1 = c)).map Prod.snd

end Given

/-- The options of a program: letters, letters with values, long names and the letters they stand
for, and the status where options are wrong. -/
structure Options where
  program : String
  letters : String
  valued : String
  long : List (String × Char)
  fault : Nat

/-- The name under which a program was called. -/
def calledAs (program : String) : Running Text := do
  return (← get).caller.getD program.toList

/-- Complains with the name of a program. -/
def complainAs (program : String) (t : Text) : Running Unit := do
  err ((← calledAs program) ++ ": ".toList ++ t ++ ['\n'])

/-- Complains and ends a program. -/
def refuse {α : Type} (program : String) (status : Nat) (t : Text) : Running α := do
  complainAs program t
  throw (.failed status)

namespace Options

variable (o : Options)

/-- Complains about the use of a program and ends it. -/
def misused {α : Type} (t : Text) : Running α := do
  let name ← calledAs o.program
  refuse o.program o.fault
    (t ++ "\nTry '".toList ++ name ++ " --help' for more information.".toList)

/-- The long options that a name may be short for. -/
def longOf (name : Text) : List (String × Char) :=
  match o.long.find? fun (k, _) => k.toList = name with
  | some p => [p]
  | none => o.long.filter fun (k, _) => name.isPrefixOf k.toList

/-- Reads the letters of an argument, of which the last may take the next argument as its value. -/
def cluster (args : List Text) : Text → Running (List (Char × Text) × List Text)
  | [] => pure ([], args)
  | c :: r =>
    if o.valued.toList.any (· = c) then
      match r, args with
      | [], [] => o.misused ("option requires an argument -- '".toList ++ [c, '\''])
      | [], value :: args => pure ([(c, value)], args)
      | value, args => pure ([(c, value)], args)
    else if o.letters.toList.any (· = c) then do
      let (os, args) ← cluster args r
      pure ((c, []) :: os, args)
    else o.misused ("invalid option -- '".toList ++ [c, '\''])

/-- Reads arguments, as many as are allowed. Options may stand behind operands unless all that
follows the first operand is one. -/
def readFrom (mixed : Bool) : Nat → List Text → Running Given
  | 0, args => pure ⟨[], args⟩
  | _ + 1, [] => pure ⟨[], []⟩
  | n + 1, arg :: args => do
    match arg with
    | ['-', '-'] => pure ⟨[], args⟩
    | '-' :: '-' :: name => do
      let (name, value) : Text × Option Text := match Text.cutAt? '=' name with
        | some (name, value) => (name, some value)
        | none => (name, none)
      match o.longOf name with
      | (k, c) :: _ =>
        if o.valued.toList.any (· = c) then
          match value, args with
          | some v, args => do
            let g ← readFrom mixed n args
            pure { g with options := (c, v) :: g.options }
          | none, v :: args => do
            let g ← readFrom mixed n args
            pure { g with options := (c, v) :: g.options }
          | none, [] => o.misused ("option '--" ++ k ++ "' requires an argument").toList
        else do
          let g ← readFrom mixed n args
          pure { g with options := (c, []) :: g.options }
      | [] => o.misused ("unrecognized option '--".toList ++ name ++ ['\''])
    | '-' :: c :: r => do
      let (os, args) ← o.cluster args (c :: r)
      let g ← readFrom mixed n args
      pure { g with options := os ++ g.options }
    | _ =>
      if mixed then do
        let g ← readFrom mixed n args
        pure { g with operands := arg :: g.operands }
      else pure ⟨[], arg :: args⟩

def read (args : List Text) : Running Given := o.readFrom true (args.length + 1) args

/-- Reads arguments of which the first operand ends the options. -/
def readFront (args : List Text) : Running Given := o.readFrom false (args.length + 1) args

end Options

/-! ### Names in complaints -/

/-- Whether a character may stand in a name without quotation marks. -/
def isSafe (c : Char) : Bool :=
  c.isAlphanum || "%+,-./@_]\x7b\x7d~#".toList.any (· = c)

/-- Whether a character may stand with an apostrophe between double quotation marks. -/
def isDoubleSafe (c : Char) : Bool := c.isAlphanum || "' %+,-./:@]_".toList.any (· = c)

/-- Three octal digits. -/
def octal (n : Nat) : Text :=
  let ds := Nat.toDigits 8 n
  List.replicate (3 - ds.length) '0' ++ ds

/-- A name between quotation marks, with escapes for what cannot be shown. -/
def enclosed (t : Text) : Text :=
  if t.any (· = '\'') && t.all isDoubleSafe then '"' :: t ++ ['"']
  else marked t
where
  marked (t : Text) : Text :=
    let step (before : Text × Bool) (c : Char) : Text × Bool :=
      let (done, escaped) := before
      if c < ' ' || '~' < c then
        let sign := if c = '\n' then ['n'] else if c = '\t' then ['t'] else octal c.toNat
        (done ++ (if escaped then [] else "'$'".toList) ++ '\\' :: sign, true)
      else
        let sign := if c = '\'' then "'\\''".toList else [c]
        (done ++ (if escaped then "''".toList else []) ++ sign, false)
    '\'' :: (t.foldl step ([], false)).1 ++ ['\'']

/-- A name as it is shown where it may need no quotation marks. -/
def shown (t : Text) : Text :=
  if !t.isEmpty && t.all isSafe && t.head? ≠ some '~' && t.head? ≠ some '#' then t else enclosed t

/-! ### Input -/

/-- The text of a fault, for a program. -/
def faultText (f : PathFault) : Text := f.text.toList

/-- All that is left of the input. -/
def input : Running Text := do
  let t := (← pending 0).getD []
  consume 0 t.length
  pure t

/-- The text of a source that an operand names. -/
def source (path : Text) : Running (Except PathFault Text) := do
  if path = ['-'] || path = "/dev/stdin".toList then
    match ← channel? 0 with
    | none => pure (.error .denied)
    | some i =>
      match (← channelAt i).rest (← get).directory with
      | none => pure (.error .folder)
      | some _ => return .ok (← input)
  else return (← locate path).content.map Encoding.bytewise

/-- The texts of the sources that operands name, or of the input where there are none. What cannot
be read is reported, and makes the status one. -/
def sources (program : String) (operands : List Text) : Running (List (Text × Text) × Nat) := do
  let mut texts := []
  let mut status := 0
  for path in if operands.isEmpty then [['-']] else operands do
    match ← source path with
    | .ok t => texts := texts ++ [(path, t)]
    | .error f => do
      complainAs program (shown path ++ ": ".toList ++ faultText f)
      status := 1
  pure (texts, status)

/-- The lines of a text. -/
def linesOf (t : Text) : List Text :=
  let ls := Text.splitOn '\n' t
  if ls.getLast? = some [] then ls.dropLast else ls

/-- Lines with their ends. -/
def unlines (ls : List Text) : Text := ls.flatMap (· ++ ['\n'])

/-- The lines of a text, each with its end if it has one. -/
def linesWithEnds (t : Text) : List Text :=
  match Text.splitOn '\n' t with
  | [] => []
  | ls => ls.dropLast.map (· ++ ['\n']) ++ (ls.getLast?.toList.filter (!List.isEmpty ·))

/-- A text at the right of a field. -/
def padded (width : Nat) (t : Text) : Text := List.replicate (width - t.length) ' ' ++ t

end Stencil.Shell.Utility
