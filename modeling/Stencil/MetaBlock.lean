import Stencil.Journal
import Stencil.Text.Blank

/-! Settings written into a template: blocks that hold entries `key=value` between commas. A block
is applied to the configuration and taken out of the text. -/
namespace Stencil

namespace MetaBlock

/-- The mark before the entries; a bracket ends them. -/
def opening : Text := "\\\\\\utpp[".toList

/-- A part of a template: a character outside all blocks, or a block. -/
inductive Part where
  | plain (c : Char)
  | block (body : Text)
  deriving DecidableEq, Repr

namespace Part

/-- The text that a part was cut from. -/
def source : Part → Text
  | plain c => [c]
  | block body => opening ++ body ++ [']']

/-- What is left of a part when blocks are taken out. -/
def rest : Part → Text
  | plain c => [c]
  | block _ => []

end Part

/-- The block that begins here and the text after it. -/
def block? (t : Text) : Option (Text × Text) :=
  if opening.isPrefixOf t then Text.cutAt? ']' (t.drop opening.length) else none

theorem eq_append_of_block? {t body after : Text} (h : block? t = some (body, after)) :
    t = (Part.block body).source ++ after := by
  simp only [block?, Option.ite_none_right_eq_some] at h
  obtain ⟨r, rfl⟩ := List.isPrefixOf_iff_prefix.1 h.1
  rw [List.drop_left] at h
  simp [Part.source, Text.eq_append_of_cutAt? h.2]

/-- The parts of a template: blocks are taken from the left and do not overlap. -/
def parts (t : Text) : List Part :=
  match t with
  | [] => []
  | c :: r =>
    match _ : block? (c :: r) with
    | some (body, after) => .block body :: parts after
    | none => .plain c :: parts r
termination_by t.length
decreasing_by
  · have := congrArg List.length (eq_append_of_block? ‹_›)
    simp only [Part.source, List.length_append, List.length_cons] at this ⊢
    omega
  · simp

/-- The blocks among parts that begin at a place, each with its own place. -/
def blocksFrom (p : Position) : List Part → List (Position × Text)
  | [] => []
  | .plain c :: ps => blocksFrom (p.next c) ps
  | .block body :: ps => (p, body) :: blocksFrom (p.after (Part.block body).source) ps

/-- The entries of a block: blanks before one are dropped, and so is an entry without text. -/
def entries (body : Text) : List Text :=
  ((body.splitOn ',').map Text.trimFront).filter (!·.isEmpty)

/-- Applies an entry of a block at `l`. An entry without a key sets nothing. -/
def applyEntry (l : Location) (c : Config) (entry : Text) : Action Config :=
  match entry.cutAt? '=' with
  | none => Action.fail (.config (.missingValue entry)) l
  | some ([], _) => pure c
  | some (key, value) => do
    unless Setting.known key do Action.note (.unknownSetting key) l
    pure (c.set key value)

/-- Applies a block. Its file is the one that the configuration names before. -/
def apply (c : Config) (block : Position × Text) : Action Config :=
  (entries block.2).foldlM (applyEntry ⟨block.1, some c.fileName⟩) c

end MetaBlock

/-- The template without its blocks, and the configuration with their entries applied; what is
forced stays as it was. -/
def preprocess (source : Text) (c : Config) : Action (Text × Config) := do
  let parts := MetaBlock.parts source
  let blocks := MetaBlock.blocksFrom .start parts
  let c ← blocks.foldlM MetaBlock.apply c
  if 1 < blocks.length then Action.note .severalBlocks ⟨.start, some c.fileName⟩
  pure (parts.flatMap MetaBlock.Part.rest, c.restoreForced)

end Stencil
