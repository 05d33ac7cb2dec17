import Stencil.Proofs.Configuration
import Stencil.Proofs.Lexing

/-! The blocks of a template are where the mark first begins one, again and again. Every entry of
them counts, and nothing else is taken out of the text. -/
namespace Stencil

namespace MetaBlock

/-- A block stands in a text between two others. -/
def Stands (t before body after : Text) : Prop :=
  t = before ++ (Part.block body).source ++ after ∧ ']' ∉ body

/-- The leftmost blocks of a text that do not overlap, each after the text before it, and the text
at the end. -/
inductive Leftmost : Text → List (Text × Text) → Text → Prop where
  | none {t : Text} (h : ∀ before body after, ¬ Stands t before body after) : Leftmost t [] t
  | block {t gap body after last : Text} {pieces : List (Text × Text)}
      (h : Stands t gap body after)
      (hfirst : ∀ before body' after', Stands t before body' after' → gap.length ≤ before.length)
      (hrest : Leftmost after pieces last) : Leftmost t ((gap, body) :: pieces) last

section Pieces

variable {t before body after gap last : Text} {pieces pieces' : List (Text × Text)}

theorem Stands.length (h : Stands t before body after) :
    t.length = before.length + opening.length + body.length + 1 + after.length := by
  rw [h.1]
  simp [Part.source]
  omega

theorem Stands.unique {body' after' before' : Text} (h : Stands t before body after)
    (h' : Stands t before' body' after') (hlength : before.length = before'.length) :
    before = before' ∧ body = body' ∧ after = after' := by
  obtain ⟨ht, hbody⟩ := h
  obtain ⟨ht', hbody'⟩ := h'
  simp only [Part.source, List.append_assoc] at ht ht'
  obtain ⟨rfl, heq⟩ := List.append_inj (ht.symm.trans ht') hlength
  have hcut : Text.cutAt? ']' (body ++ ']' :: after) = some (body, after) :=
    Text.cutAt?_append hbody after
  have hcut' : Text.cutAt? ']' (body' ++ ']' :: after') = some (body', after') :=
    Text.cutAt?_append hbody' after'
  have htail : body ++ ']' :: after = body' ++ ']' :: after' := List.append_cancel_left heq
  rw [htail] at hcut
  have hsame := Option.some.inj (hcut.symm.trans hcut')
  exact ⟨rfl, (Prod.mk.inj hsame).1, (Prod.mk.inj hsame).2⟩

/-- The blocks of a text are what they are. -/
theorem Leftmost.unique {last' : Text} (h : Leftmost t pieces last)
    (h' : Leftmost t pieces' last') : pieces = pieces' ∧ last = last' := by
  induction h generalizing pieces' last' with
  | none hnone =>
    cases h' with
    | none => exact ⟨rfl, rfl⟩
    | block hstands => exact absurd hstands (hnone _ _ _)
  | block hstands hfirst _ ih =>
    cases h' with
    | none hnone => exact absurd hstands (hnone _ _ _)
    | block hstands' hfirst' hrest =>
      have hlength := Nat.le_antisymm (hfirst _ _ _ hstands') (hfirst' _ _ _ hstands)
      obtain ⟨rfl, rfl, rfl⟩ := hstands.unique hstands' hlength
      obtain ⟨rfl, rfl⟩ := ih hrest
      exact ⟨rfl, rfl⟩

theorem block?_eq_some_iff : block? t = some (body, after) ↔ Stands t [] body after := by
  unfold Stands
  rw [List.nil_append]
  constructor
  · intro h
    refine ⟨eq_append_of_block? h, ?_⟩
    simp only [block?, Option.ite_none_right_eq_some] at h
    exact (Text.cutAt?_eq_some_iff.1 h.2).2
  · rintro ⟨rfl, hbody⟩
    have hopening : opening.isPrefixOf ((Part.block body).source ++ after) := by
      simp [Part.source, List.isPrefixOf_iff_prefix]
    rw [block?, if_pos hopening]
    simpa [Part.source] using Text.cutAt?_append hbody after

theorem Stands.of_cons {c : Char} (h : Stands (c :: t) before body after)
    (hnone : block? (c :: t) = none) :
    ∃ before', before = c :: before' ∧ Stands t before' body after := by
  cases before with
  | nil =>
    rw [block?_eq_some_iff.2 h] at hnone
    cases hnone
  | cons c' before' =>
    obtain ⟨heq, hbody⟩ := h
    obtain ⟨rfl, ht⟩ := List.cons.inj heq
    exact ⟨before', rfl, ht, hbody⟩

theorem Stands.cons (c : Char) (h : Stands t before body after) :
    Stands (c :: t) (c :: before) body after :=
  ⟨congrArg (c :: ·) h.1, h.2⟩

end Pieces

/-- The pieces that parts of a text make up, and the text after the last block. -/
def gather : List Part → List (Text × Text) × Text
  | [] => ([], [])
  | .plain c :: ps =>
    match gather ps with
    | ([], last) => ([], c :: last)
    | ((gap, body) :: pieces, last) => ((c :: gap, body) :: pieces, last)
  | .block body :: ps => (([], body) :: (gather ps).1, (gather ps).2)

section Gathering

end Gathering

end MetaBlock

open Stencil.Action Stencil.MetaBlock

theorem Action.foldlM_cases {α β σ : Type} (f : σ → α → Action σ) (fault? : α → Option β)
    (F : β → Stop → Prop)
    (hgood : ∀ s x j, fault? x = none → ∃ s' k, (f s x).Runs j s' k)
    (hfault : ∀ s x y j, fault? x = some y → ∃ e k, F y e ∧ (f s x).Stops j e k)
    (xs : List α) (s : σ) (j : Journal) :
    (xs.findSome? fault? = none → ∃ s' k, (xs.foldlM f s).Runs j s' k) ∧
    ∀ y, xs.findSome? fault? = some y → ∃ e k, F y e ∧ (xs.foldlM f s).Stops j e k := by
  induction xs generalizing s j with
  | nil => exact ⟨fun _ => ⟨s, j, rfl⟩, fun _ h => by cases h⟩
  | cons x xs ih =>
    rw [List.findSome?_cons, List.foldlM_cons]
    cases hx : fault? x with
    | some y =>
      refine ⟨nofun, fun y' h => ?_⟩
      obtain rfl := Option.some.inj h
      obtain ⟨e, k, he, hstop⟩ := hfault s x y j hx
      exact ⟨e, k, he, stops_bind.2 (.inl hstop)⟩
    | none =>
      obtain ⟨s', i, hrun⟩ := hgood s x j hx
      obtain ⟨hnone, hsome⟩ := ih s' i
      refine ⟨fun h => ?_, fun y h => ?_⟩
      · obtain ⟨s'', k, hrest⟩ := hnone h
        exact ⟨s'', k, runs_bind.2 ⟨s', i, hrun, hrest⟩⟩
      · obtain ⟨e, k, he, hrest⟩ := hsome y h
        exact ⟨e, k, he, stops_bind.2 (.inr ⟨s', i, hrun, hrest⟩)⟩

namespace MetaBlock

variable {c : Config} {j : Journal}

theorem runs_applyEntry_of_mem {entry : Text} (l : Location) (h : '=' ∈ entry) :
    ∃ c' k, (applyEntry l c entry).Runs j c' k := by
  unfold applyEntry
  split
  · next hcut => exact absurd h (Text.cutAt?_eq_none_iff.1 hcut)
  · exact ⟨c, j, rfl⟩
  · dsimp only
    split
    · exact ⟨_, _, rfl⟩
    · exact ⟨_, _, rfl⟩

theorem stops_applyEntry {entry : Text} (l : Location) (h : '=' ∉ entry) :
    (applyEntry l c entry).Stops j (.failed ⟨[], .config (.missingValue entry), l⟩) j := by
  rw [applyEntry, Text.cutAt?_eq_none_iff.2 h]
  exact stops_fail.2 ⟨rfl, rfl⟩

/-- The first of some blocks' entries without `=`, with the place of its block. -/
def lacking? (block : Position × Text) : Option (Position × Text) :=
  ((entries block.2).find? fun entry => '=' ∉ entry).map (block.1, ·)

theorem apply_cases (c : Config) (block : Position × Text) (j : Journal) :
    (lacking? block = none → ∃ c' k, (apply c block).Runs j c' k) ∧
    ∀ p entry, lacking? block = some (p, entry) → ∃ k, (apply c block).Stops j
      (.failed ⟨[], .config (.missingValue entry), ⟨p, some c.fileName⟩⟩) k := by
  let l : Location := ⟨block.1, some c.fileName⟩
  have hentry : ∀ c entry e j, Option.guard (fun entry => '=' ∉ entry) entry = some e →
      ∃ s k, s = .failed ⟨[], .config (.missingValue e), l⟩ ∧
        (applyEntry l c entry).Stops j s k := by
    intro c entry e j h
    obtain ⟨rfl, hmem⟩ := Option.guard_eq_some_iff.1 h
    exact ⟨_, j, rfl, stops_applyEntry l (by simpa using hmem)⟩
  obtain ⟨hgood, hfault⟩ := foldlM_cases (applyEntry l) (Option.guard fun entry => '=' ∉ entry) _
    (fun c entry j h => runs_applyEntry_of_mem l (by simpa using h)) hentry (entries block.2) c j
  rw [List.findSome?_guard] at hgood hfault
  refine ⟨fun h => hgood (Option.map_eq_none_iff.1 h), fun p entry h => ?_⟩
  obtain ⟨e, he, heq⟩ := Option.map_eq_some_iff.1 h
  obtain ⟨rfl, rfl⟩ := Prod.mk.inj heq
  obtain ⟨s, k, rfl, hstop⟩ := hfault e he
  exact ⟨k, hstop⟩

theorem foldlM_apply_cases (blocks : List (Position × Text)) (c : Config) (j : Journal) :
    (blocks.findSome? lacking? = none → ∃ c' k, (blocks.foldlM apply c).Runs j c' k) ∧
    ∀ p entry, blocks.findSome? lacking? = some (p, entry) → ∃ file k,
      (blocks.foldlM apply c).Stops j
        (.failed ⟨[], .config (.missingValue entry), ⟨p, some file⟩⟩) k := by
  have hblock : ∀ c block e j, lacking? block = some e →
      ∃ s k, (∃ file, s = .failed ⟨[], .config (.missingValue e.2), ⟨e.1, some file⟩⟩) ∧
        (apply c block).Stops j s k := by
    intro c block e j h
    obtain ⟨k, hstop⟩ := (apply_cases c block j).2 e.1 e.2 h
    exact ⟨_, k, ⟨_, rfl⟩, hstop⟩
  obtain ⟨hgood, hfault⟩ := foldlM_cases apply lacking? _
    (fun c block j h => (apply_cases c block j).1 h) hblock blocks c j
  refine ⟨hgood, fun p entry h => ?_⟩
  obtain ⟨s, k, ⟨file, rfl⟩, hstop⟩ := hfault _ h
  exact ⟨file, k, hstop⟩

end MetaBlock

section Results

variable (source : Text) (c : Config) (j : Journal)

theorem preprocess_cases :
    ((blocksFrom .start (parts source)).findSome? lacking? = none →
      ∃ k, (preprocess source c).Runs j
        ((parts source).flatMap Part.rest, c.forSource source) k) ∧
    ∀ p entry, (blocksFrom .start (parts source)).findSome? lacking? = some (p, entry) →
      ∃ file k, (preprocess source c).Stops j
        (.failed ⟨[], .config (.missingValue entry), ⟨p, some file⟩⟩) k := by
  obtain ⟨hgood, hfault⟩ := foldlM_apply_cases (blocksFrom .start (parts source)) c j
  refine ⟨fun h => ?_, fun p entry h => ?_⟩
  · obtain ⟨c₁, i, hblocks⟩ := hgood h
    have hruns : ∃ c' k, (preprocess source c).Runs j ((parts source).flatMap Part.rest, c') k := by
      unfold preprocess
      by_cases hmany : 1 < (blocksFrom .start (parts source)).length
      · exact ⟨_, _, runs_bind.2 ⟨c₁, i, hblocks, by rw [if_pos hmany]; rfl⟩⟩
      · exact ⟨_, _, runs_bind.2 ⟨c₁, i, hblocks, by rw [if_neg hmany]; rfl⟩⟩
    obtain ⟨c', k, hruns⟩ := hruns
    obtain rfl := preprocess_forSource hruns
    exact ⟨k, hruns⟩
  · obtain ⟨file, k, hstop⟩ := hfault p entry h
    exact ⟨file, k, stops_bind.2 (.inl hstop)⟩

end Results

end Stencil
