import Stencil.Shell.Pattern

/-! Words that have been filled in: their pieces, and the fields that they are split into. -/
namespace Stencil.Shell

/-- How a character of a word came to be there. -/
inductive Manner where
  | plain
  | quoted
  /-- By what was filled in, which may be split. -/
  | filled
  deriving DecidableEq, Repr

/-- A piece of a word that has been filled in. -/
inductive Piece where
  | char (c : Char) (m : Manner)
  /-- A quoted text without characters, which still makes a field. -/
  | empty
  /-- The end of a field. -/
  | border
  deriving DecidableEq, Repr

namespace Piece

/-- The pieces of a text that is quoted or is not. -/
def ofText (t : Text) (quoted : Bool) : List Piece :=
  if quoted && t.isEmpty then [empty]
  else t.map (char · (if quoted then .quoted else .filled))

/-- The characters of pieces. -/
def text (ps : List Piece) : Text :=
  ps.filterMap fun
    | char c _ => some c
    | _ => none

def glyphs (ps : List Piece) : List Glyph :=
  ps.filterMap fun
    | char c m => some ⟨c, m ≠ .quoted⟩
    | _ => none

/-- Makes plain characters such that may be split. -/
def asFilled : Piece → Piece
  | char c .plain => char c .filled
  | p => p

end Piece

/-- What the characters since the last field ended were. -/
inductive Gap where
  | start
  | blank
  /-- A separator that is no blank, which ends a field even if that is empty. -/
  | separator
  deriving DecidableEq, Repr

/-- The fields that have been split off, the last one first; the field that is being read, last
piece first; and the characters since the last field ended. -/
structure Splitting where
  fields : List (List Piece)
  field : Option (List Piece)
  gap : Gap

namespace Splitting

variable (s : Splitting)

def add (p : Piece) : Splitting := { s with field := some (p :: s.field.getD []) }

/-- Ends the field that is being read, if there is one. -/
def close (gap : Gap) : Splitting :=
  match s.field with
  | some f => ⟨f.reverse :: s.fields, none, gap⟩
  | none => s

/-- Takes a separator: blanks only end fields, and of the others each ends one. -/
def separate (c : Char) : Splitting :=
  if c = ' ' || c = '\t' || c = '\n' then s.close .blank
  else match s.field, s.gap with
    | some _, _ => s.close .separator
    | none, .blank => { s with gap := .separator }
    | none, _ => ⟨[] :: s.fields, none, .separator⟩

def step (separators : Text) (p : Piece) : Splitting :=
  match p with
  | .char c .filled => if separators.any (· = c) then s.separate c else s.add p
  | .border => s.close .start
  | p => s.add p

end Splitting

/-- The fields of pieces. -/
def fieldsOf (separators : Text) (ps : List Piece) : List (List Piece) :=
  ((ps.foldl (Splitting.step · separators) ⟨[], none, .start⟩).close .start).fields.reverse

end Stencil.Shell
