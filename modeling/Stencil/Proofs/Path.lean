import Mathlib.Data.List.Infix
import Stencil.Path

/-! Normalized paths: normalizing one again leaves it as it is, so that all ways to spell the way
to a file come to one path. -/
namespace Stencil.Path

theorem splitOn_eq (mark : Char) (t : Text) : t.splitOn mark = List.splitOn mark t := by
  induction t with
  | nil => simp [Text.splitOn]
  | cons c t ih =>
    have hcons : List.splitOn mark (c :: t) =
        if c == mark then [] :: List.splitOn mark t
        else (List.splitOn mark t).modifyHead (c :: ·) := by
      simp only [List.splitOn_eq_splitOnP, List.splitOnP_cons_eq_if_modifyHead]
    rw [Text.splitOn, ih, hcons]
    by_cases hc : c = mark
    · simp [hc]
    · cases hs : List.splitOn mark t with
      | nil => exact absurd hs (List.splitOn_ne_nil mark t)
      | cons first others => simp [hc]

theorem not_mem_of_mem_splitOn {mark : Char} {t part : Text} (h : part ∈ t.splitOn mark) :
    mark ∉ part := by
  induction t generalizing part with
  | nil =>
    obtain rfl := List.mem_singleton.1 h
    exact List.not_mem_nil
  | cons c t ih =>
    rw [Text.splitOn] at h
    split at h
    · obtain rfl | h := List.mem_cons.1 h
      · exact List.not_mem_nil
      · exact ih h
    · next hc =>
      split at h
      · obtain rfl := List.mem_singleton.1 h
        simpa using Ne.symm hc
      · next first others hs =>
        rw [hs] at ih
        obtain rfl | h := List.mem_cons.1 h
        · simpa using ⟨Ne.symm hc, ih List.mem_cons_self⟩
        · exact ih (List.mem_cons_of_mem _ h)

theorem splitOn_of_isAbsolute {t : Text} (h : isAbsolute t = true) :
    ∃ others, t.splitOn '/' = [] :: others := by
  cases t with
  | nil => cases h
  | cons c r =>
    have hc : c = '/' := by simpa [isAbsolute] using h
    exact ⟨Text.splitOn '/' r, by rw [Text.splitOn, if_pos hc]⟩

theorem parts_of_splitOn {t first : Text} {others : List Text}
    (h : t.splitOn '/' = first :: others) : parts t = (first, others) := by
  rw [parts, h]

namespace Component

/-- A step other than the root that a part between two slashes stands for. -/
def IsPart (c : Component) : Prop := ofPart? c.text = some c ∧ '/' ∉ c.text

theorem isPart_parent : IsPart parent := by
  constructor
  · rfl
  · decide

theorem isPart_of_ofPart? {part : Text} {c : Component} (h : ofPart? part = some c)
    (hslash : '/' ∉ part) : c.IsPart := by
  have h' := h
  unfold ofPart? at h'
  split at h'
  · cases h'
  · split at h'
    · obtain rfl := Option.some.inj h'
      exact isPart_parent
    · obtain rfl := Option.some.inj h'
      exact ⟨h, hslash⟩

theorem IsPart.text_ne_nil {c : Component} (h : c.IsPart) : c.text ≠ [] := by
  intro hnil
  have hsome := h.1
  rw [hnil] at hsome
  cases hsome

theorem IsPart.ofFirst?_text {c : Component} (h : c.IsPart) : ofFirst? c.text = some c := by
  unfold ofFirst?
  split
  · next hdot =>
    have hsome := h.1
    rw [hdot] at hsome
    cases hsome
  · exact h.1

end Component

/-- Steps, the last one first, in which no `..` can be taken back any more. -/
inductive Folded : List Component → Prop where
  | nil : Folded []
  | root : Folded [.root]
  | parent : Folded [.parent]
  | parentOfRoot : Folded [.parent, .root]
  | name {n : Text} {cs : List Component} (hn : Component.IsPart (.name n)) (h : Folded cs) :
      Folded (.name n :: cs)

theorem Folded.follow {taken : List Component} (h : Folded taken) {c : Component}
    (hc : c = .current ∨ c.IsPart) : Folded (follow taken c) := by
  cases c with
  | root =>
    obtain hc | ⟨hc, -⟩ := hc
    · cases hc
    · cases hc
  | current => exact h
  | parent =>
    cases h with
    | nil => exact .parent
    | root => exact .parentOfRoot
    | parent => exact .nil
    | parentOfRoot => exact .root
    | name _ h => exact h
  | name n =>
    obtain hc | hc := hc
    · cases hc
    · exact .name hc h

theorem Folded.foldl_follow {taken cs : List Component} (h : Folded taken)
    (hcs : ∀ c ∈ cs, c = .current ∨ c.IsPart) : Folded (cs.foldl Path.follow taken) := by
  induction cs generalizing taken with
  | nil => exact h
  | cons c cs ih =>
    obtain ⟨hc, hcs⟩ := List.forall_mem_cons.1 hcs
    exact ih (h.follow hc) hcs

theorem Folded.foldl_reverse {taken : List Component} (h : Folded taken) :
    taken.reverse.foldl Path.follow [] = taken := by
  induction h with
  | name hn h ih => rw [List.reverse_cons, List.foldl_append, ih]; rfl
  | _ => rfl

theorem Folded.reverse_eq {taken : List Component} (h : Folded taken) :
    ∃ cs, (∀ c ∈ cs, c.IsPart) ∧ (taken.reverse = cs ∨ taken.reverse = .root :: cs) := by
  induction h with
  | nil => exact ⟨[], by simp, .inl rfl⟩
  | root => exact ⟨[], by simp, .inr rfl⟩
  | parent => exact ⟨[.parent], by simp [Component.isPart_parent], .inl rfl⟩
  | parentOfRoot => exact ⟨[.parent], by simp [Component.isPart_parent], .inr rfl⟩
  | @name n _ hn _ ih =>
    obtain ⟨cs, hcs, hreverse⟩ := ih
    refine ⟨cs ++ [.name n], ?_, ?_⟩
    · intro c hc
      obtain hc | hc := List.mem_append.1 hc
      · exact hcs c hc
      · exact List.mem_singleton.1 hc ▸ hn
    · rw [List.reverse_cons]
      obtain hreverse | hreverse := hreverse
      · exact .inl (congrArg (· ++ [Component.name n]) hreverse)
      · exact .inr (congrArg (· ++ [Component.name n]) hreverse)

theorem components_eq (t : Text) :
    ∃ cs, (∀ c ∈ cs, c = .current ∨ c.IsPart) ∧
      components t = if isAbsolute t then .root :: cs else cs := by
  cases hsplit : t.splitOn '/' with
  | nil => exact absurd (splitOn_eq '/' t ▸ hsplit) (List.splitOn_ne_nil '/' t)
  | cons first others =>
    have hslash : ∀ part ∈ first :: others, '/' ∉ part := fun part hpart =>
      not_mem_of_mem_splitOn (hsplit ▸ hpart)
    have hothers : ∀ c ∈ others.filterMap Component.ofPart?, c = .current ∨ c.IsPart := by
      intro c hc
      obtain ⟨part, hpart, hc⟩ := List.mem_filterMap.1 hc
      exact .inr (Component.isPart_of_ofPart? hc (hslash part (List.mem_cons_of_mem _ hpart)))
    have hfirst : ∀ c ∈ (Component.ofFirst? first).toList, c = .current ∨ c.IsPart := by
      intro c hc
      rw [Option.mem_toList, Component.ofFirst?] at hc
      split at hc
      · exact .inl (Option.some.inj hc).symm
      · exact .inr (Component.isPart_of_ofPart? hc (hslash first List.mem_cons_self))
    simp only [components, parts_of_splitOn hsplit]
    split
    · exact ⟨_, hothers, rfl⟩
    · exact ⟨_, List.forall_mem_append.2 ⟨hfirst, hothers⟩, rfl⟩

theorem splitOn_join {cs : List Component} (h : ∀ c ∈ cs, c.IsPart) (hne : cs ≠ []) :
    (Text.join ['/'] (cs.map Component.text)).splitOn '/' = cs.map Component.text := by
  rw [splitOn_eq]
  refine List.splitOn_intercalate '/' ?_ (by simpa using hne)
  intro l hl
  obtain ⟨c, hc, rfl⟩ := List.mem_map.1 hl
  exact (h c hc).2

theorem filterMap_ofPart?_text {cs : List Component} (h : ∀ c ∈ cs, c.IsPart) :
    (cs.map Component.text).filterMap Component.ofPart? = cs := by
  rw [List.filterMap_map]
  calc cs.filterMap (Component.ofPart? ∘ Component.text) = cs.filterMap some :=
        List.filterMap_congr fun c hc => (h c hc).1
    _ = cs := List.filterMap_some

theorem components_ofComponents {taken : List Component} (h : Folded taken) :
    components (ofComponents taken.reverse) = taken.reverse := by
  obtain ⟨cs, hcs, hreverse | hreverse⟩ := h.reverse_eq
  · rw [hreverse]
    cases cs with
    | nil => rfl
    | cons c cs =>
      obtain ⟨hc, hcs'⟩ := List.forall_mem_cons.1 hcs
      have hspelled : ofComponents (c :: cs) =
          Text.join ['/'] ((c :: cs).map Component.text) := by
        cases c with
        | root => cases hc.1
        | _ => rfl
      have hsplit := splitOn_join hcs (List.cons_ne_nil c cs)
      have hrelative : isAbsolute (Text.join ['/'] ((c :: cs).map Component.text)) = false := by
        rw [Bool.eq_false_iff]
        intro habsolute
        obtain ⟨others, hothers⟩ := splitOn_of_isAbsolute habsolute
        rw [hsplit] at hothers
        exact hc.text_ne_nil (List.cons.inj hothers).1
      rw [hspelled]
      simp only [components, parts_of_splitOn hsplit, hrelative, filterMap_ofPart?_text hcs',
        hc.ofFirst?_text]
      rfl
  · rw [hreverse]
    cases cs with
    | nil => rfl
    | cons c cs =>
      have hsplit := splitOn_join hcs (List.cons_ne_nil c cs)
      have hrooted : (ofComponents (.root :: c :: cs)).splitOn '/' =
          [] :: (c :: cs).map Component.text := by
        rw [← hsplit]
        rfl
      have habsolute : isAbsolute (ofComponents (.root :: c :: cs)) = true := rfl
      simp only [components, parts_of_splitOn hrooted, habsolute, if_true,
        filterMap_ofPart?_text hcs]
      rfl

/-- Normalizing folds the steps of a path. -/
theorem folded_components (t : Text) : Folded ((components t).foldl follow []) := by
  obtain ⟨cs, hcs, h⟩ := components_eq t
  rw [h]
  split
  · exact Folded.root.foldl_follow hcs
  · exact Folded.nil.foldl_follow hcs

theorem components_normalize (t : Text) :
    components (normalize t) = ((components t).foldl follow []).reverse :=
  components_ofComponents (folded_components t)

/-- What is normalized stays as it is. -/
@[simp] theorem normalize_normalize (t : Text) : normalize (normalize t) = normalize t := by
  have hsteps := (folded_components t).foldl_reverse
  rw [normalize, components_normalize, hsteps, normalize]

end Stencil.Path
