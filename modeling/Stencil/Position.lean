import Stencil.Text

/-! Places in a template: rows and columns count from zero, and messages show them from one. -/
namespace Stencil

/-- A row, and the number of characters before the place in it. -/
structure Position where
  row : Nat
  col : Nat
  deriving DecidableEq, Inhabited, Repr

namespace Position

/-- Where a text begins. -/
def start : Position := ⟨0, 0⟩

/-- The place one character later. -/
def next (p : Position) (c : Char) : Position :=
  if c = '\n' then ⟨p.row + 1, 0⟩ else ⟨p.row, p.col + 1⟩

/-- The place at the end of `t`, where `t` begins at `p`. -/
def after (p : Position) (t : Text) : Position := t.foldl next p

theorem after_append (p : Position) (s t : Text) : p.after (s ++ t) = (p.after s).after t :=
  List.foldl_append

/-- How messages show the place. -/
def describe (p : Position) : String := s!"line {p.row + 1}, column {p.col + 1}"

end Position

/-- Why one stage of reading a template fails, and where. -/
structure Fault (κ : Type) where
  cause : κ
  position : Position
  deriving DecidableEq, Repr

/-- A place together with the file it belongs to, as far as the file is known. -/
structure Location where
  position : Position
  file : Option Text
  deriving DecidableEq, Inhabited, Repr

namespace Location

/-- The beginning of a text of no known file. -/
def start : Location := ⟨.start, none⟩

/-- Records the file unless one is known already. -/
def stamp (file : Text) (l : Location) : Location := ⟨l.position, some (l.file.getD file)⟩

/-- How messages show the location. -/
def describe (l : Location) : String :=
  match l.file with
  | none => l.position.describe
  | some file => s!"{l.position.describe} in {file.str}"

/-- The first file recorded is kept. -/
@[simp] theorem stamp_stamp (f g : Text) (l : Location) : (l.stamp f).stamp g = l.stamp f := rfl

end Location
end Stencil
