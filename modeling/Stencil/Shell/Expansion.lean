import Stencil.Shell.Arithmetic
import Stencil.Shell.Piece

/-! What words stand for: the values of parameters and the outputs of commands are filled in, the
result is split into fields, and fields that are patterns become names of files. -/
namespace Stencil.Shell

namespace Expansion

open Running

/-- The characters that split fields. -/
def separators : Running Text := do return (← value? "IFS".toList).getD [' ', '\t', '\n']

/-- What stands between arguments that become one text. -/
def glue : Running Text := do return (← separators).take 1

/-- The value of a parameter that is one text. -/
def valueOf? (name : Text) : Running (Option Text) := do
  let s ← get
  match name with
  | ['#'] => pure (some (digits s.arguments.length))
  | ['?'] => pure (some (digits s.status))
  | ['$'] => pure (some (digits s.process))
  | ['!'] => value? ['!']
  | ['-'] => pure (some s.flags)
  | ['0'] => pure (some s.name)
  | ['@'] | ['*'] =>
    if s.arguments.isEmpty then pure none else pure (some (Text.join (← glue) s.arguments))
  | name =>
    if name.all Char.isDigit then pure s.arguments[(String.ofList name).toNat! - 1]?
    else value? name

/-- The pieces of the value of a parameter. -/
def pieces (fields quoted : Bool) (name : Text) (value : Option Text) : Running (List Piece) := do
  let arguments := (← get).arguments
  match name with
  | ['@'] =>
    if !fields then pure (Piece.ofText (value.getD []) quoted)
    else pure ((arguments.map (Piece.ofText · quoted)).intersperse [.border]).flatten
  | ['*'] =>
    if !fields || quoted then pure (Piece.ofText (value.getD []) quoted)
    else pure ((arguments.map (Piece.ofText · false)).intersperse [.border]).flatten
  | _ => pure (Piece.ofText (value.getD []) quoted)

/-- Whether a value counts as one. -/
def counts (orEmpty : Bool) (value : Option Text) : Bool :=
  value.any fun t => !(orEmpty && t.isEmpty)

section

variable (output : List Command → Running Text) (fields : Bool)

mutual

/-- The pieces of a part of a word. -/
def fill : Nat → Part → Running (List Piece)
  | 0, _ => throw .exhausted
  | _ + 1, .text t true => pure (Piece.ofText t true)
  | _ + 1, .text t false => pure (t.map (.char · .plain))
  | _ + 1, .output body quoted => do
    let t ← output body
    pure (Piece.ofText (t.reverse.dropWhile (· = '\n')).reverse quoted)
  | n + 1, .arithmetic source quoted => do
    let ps ← fillAll n source
    pure (Piece.ofText (← calculated (Piece.text ps)) quoted)
  | n + 1, .parameter name reference word quoted => do
    let value ← valueOf? name
    let instead : Running (List Piece) := do
      let ps ← fillAll n word
      pure (if quoted then (if ps.isEmpty then [.empty] else ps) else ps.map Piece.asFilled)
    let cut (f : Pattern → Text → Text) : Running (List Piece) := do
      let p := Pattern.ofList (Piece.glyphs (← fillAll n word))
      pure (Piece.ofText (f p (value.getD [])) quoted)
    let strict : Running Unit := do
      if value.isNone && name ≠ ['@'] && name ≠ ['*'] && (← hasFlag 'u') then
        abort (name ++ ": parameter not set".toList)
    match reference with
    | .unknown => abort "Bad substitution".toList
    | .value => do
      strict
      pieces fields quoted name value
    | .length => do
      strict
      pure (Piece.ofText (digits (value.getD []).length) quoted)
    | .default orEmpty =>
      if counts orEmpty value then pieces fields quoted name value else instead
    | .alternative orEmpty =>
      if counts orEmpty value then instead else pure (if quoted then [.empty] else [])
    | .assign orEmpty =>
      if counts orEmpty value then pieces fields quoted name value
      else if !isName name then abort (name ++ ": bad variable name".toList)
      else do
        let t := Piece.text (← fillAll n word)
        assign name t
        pure (Piece.ofText t quoted)
    | .require orEmpty =>
      if counts orEmpty value then pieces fields quoted name value
      else do
        let t := Piece.text (← fillAll n word)
        let reason :=
          if word.isEmpty then
            "parameter not set".toList ++ if orEmpty then " or null".toList else []
          else t
        abort (name ++ ": ".toList ++ reason)
    | .cutFront longest => do
      strict
      cut fun p t => p.cutFront longest t
    | .cutBack longest => do
      strict
      cut fun p t => p.cutBack longest t

def fillAll : Nat → List Part → Running (List Piece)
  | 0, _ => throw .exhausted
  | _ + 1, [] => pure []
  | n + 1, p :: ps => do
    let front ← fill n p
    let back ← fillAll n ps
    pure (front ++ back)

end

/-- The pieces of a word, where a tilde at the front stands for the home directory. -/
def fillWord (n : Nat) (w : Word) : Running (List Piece) := do
  match w with
  | .text ('~' :: t) false :: rest =>
    let user := t.takeWhile (· ≠ '/')
    let home? : Option Text ←
      if user.isEmpty then value? "HOME".toList
      else pure (if user = "root".toList then some "/root".toList else none)
    match home? with
    | some home =>
      let t := t.drop user.length
      if rest.isEmpty || !t.isEmpty then do
        let ps ← fillAll output fields n (.text t false :: rest)
        pure (Piece.ofText home true ++ ps)
      else fillAll output fields n w
    | none => fillAll output fields n w
  | w => fillAll output fields n w

end

/-- The text of a word that makes no fields. -/
def textOf (output : List Command → Running Text) (n : Nat) (w : Word) : Running Text := do
  return Piece.text (← fillWord output false n w)

/-- Whether one text stands before another, byte by byte. -/
def precedes : Text → Text → Bool
  | [], _ => true
  | _ :: _, [] => false
  | a :: s, b :: t => if a = b then precedes s t else a < b

def sorted (ts : List Text) : List Text := ts.mergeSort precedes

/-- The names in a directory. -/
def namesAt (d : Directory) : Directory.Place → List Text
  | .folder names => (d.children names).map toUtf8
  | _ => []

def isThere : Directory.Place → Bool
  | .vacant _ | .lost _ => false
  | _ => true

/-- The paths that the parts of a pattern between slashes stand for, behind a path and from its
place. -/
def pathsFrom (d : Directory) (place : Directory.Place) (path : Text) :
    List (List Glyph) → List Text
  | [] => if isThere place then [path] else []
  | part :: parts =>
    let near := if parts.isEmpty then [] else ['/']
    let at? (name : Text) : Directory.Place :=
      if name.isEmpty then (if path.isEmpty then .folder Directory.root else place)
      else d.locate place (ofUtf8 name)
    if part.any Pattern.isActive then
      let p := Pattern.ofList part
      let names := ['.'] :: ['.', '.'] :: namesAt d place
      (names.filter p.fitsName).flatMap fun name =>
        match at? name, parts with
        | .file _ _ _, _ :: _ => []
        | next, parts => pathsFrom d next (path ++ name ++ near) parts
    else
      let name := part.map Glyph.char
      match at? name, parts with
      | .file _ _ _, _ :: _ => []
      | next, parts => pathsFrom d next (path ++ name ++ near) parts

/-- The parts of a pattern between slashes. -/
def partsOf : List Glyph → List (List Glyph)
  | [] => [[]]
  | g :: gs =>
    if g.char = '/' then [] :: partsOf gs
    else match partsOf gs with
      | [] => [[g]]
      | first :: others => (g :: first) :: others

/-- The texts of a field: the names of the files that it stands for, or its own. -/
def namesOf (field : List Piece) : Running (List Text) := do
  let gs := Piece.glyphs field
  let s ← get
  if gs.any Pattern.isActive && !s.flags.any (· = 'f') then
    match sorted (pathsFrom s.directory s.place [] (partsOf gs)) with
    | [] => pure [Piece.text field]
    | names => pure names
  else pure [Piece.text field]

/-- The fields of a word. -/
def fieldsOfWord (output : List Command → Running Text) (n : Nat) (w : Word) :
    Running (List Text) := do
  let ps ← fillWord output true n w
  let fields := fieldsOf (← separators) ps
  return (← fields.mapM namesOf).flatten

end Expansion
end Stencil.Shell
