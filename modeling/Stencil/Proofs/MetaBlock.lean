import Mathlib.Data.List.Infix
import Stencil.MetaBlock
import Stencil.Proofs.Action

/-! Settings written into a template: what a text without blocks is left as. -/
namespace Stencil

namespace MetaBlock

theorem parts_cons_of_block?_eq_none {c : Char} {t : Text} (h : block? (c :: t) = none) :
    parts (c :: t) = .plain c :: parts t := by
  rw [parts]
  split
  · next heq => rw [h] at heq; cases heq
  · rfl

theorem parts_of_block? {t body after : Text} (h : block? t = some (body, after)) :
    parts t = .block body :: parts after := by
  match t with
  | [] => cases h
  | c :: r =>
    rw [parts]
    split
    · next heq =>
      obtain ⟨rfl, rfl⟩ := Prod.mk.inj (Option.some.inj (h.symm.trans heq))
      rfl
    · next heq => rw [h] at heq; cases heq

theorem parts_eq_map_plain {t : Text} (h : ∀ s ∈ t.tails, block? s = none) :
    parts t = t.map .plain := by
  induction t with
  | nil => rw [parts, List.map_nil]
  | cons c t ih =>
    rw [List.tails_cons, List.forall_mem_cons] at h
    rw [parts_cons_of_block?_eq_none h.1, ih h.2, List.map_cons]

theorem blocksFrom_map_plain (p : Position) (t : Text) : blocksFrom p (t.map .plain) = [] := by
  induction t generalizing p with
  | nil => rfl
  | cons c t ih => exact ih (p.next c)

end MetaBlock

open Stencil.Action Stencil.MetaBlock

/-- A text in which no block begins is kept, and nothing is noted. -/
theorem runs_preprocess {source : Text} {c : Config} {j : Journal}
    (h : ∀ s ∈ source.tails, block? s = none) :
    (preprocess source c).Runs j (source, c.restoreForced) j := by
  have hrest : (source.map Part.plain).flatMap Part.rest = source := by
    simp [List.flatMap_map, Part.rest]
  unfold preprocess
  simp only [parts_eq_map_plain h, blocksFrom_map_plain, hrest]
  exact runs_pure.2 ⟨rfl, rfl⟩

end Stencil
