import Stencil.Proofs.Configuration
import Stencil.Proofs.Visits

/-! Scopes told by the innermost one and those around it: what the operations on the innermost scope
and its parent do, and what one construct can do to a session. -/
namespace Stencil

namespace Scopes

variable (s : Scopes) {name : Text} {b : Binding} {scope : Scope} {outer : List Scope}

/-- The names of scope `i` itself. -/
def scope? (i : Nat) : Option Scope := (s.levels i).head?

theorem scope?_eq (i : Nat) :
    s.scope? i = if i < s.depth then (s.inner :: s.outer)[s.current - i]? else none := by
  unfold scope? levels
  split
  · rw [List.head?_drop]
  · rfl

@[simp] theorem levels_current : s.levels s.current = s.inner :: s.outer := by
  simp [levels, current, depth]

@[simp] theorem define_current :
    s.define s.current name b = ⟨s.inner.insert name b, s.outer⟩ := by
  simp [define, modify, current, depth]

@[simp] theorem erase_current : s.erase s.current name = ⟨s.inner.erase name, s.outer⟩ := by
  simp [erase, modify, current, depth]

variable {s} {parent : Nat}

theorem parent?_current_eq_some :
    s.parent? s.current = some parent ↔
      ∃ scope outer, s.outer = scope :: outer ∧ parent = outer.length := by
  unfold parent? current depth
  cases s.outer with
  | nil => simp
  | cons scope outer => simp [eq_comm]

theorem define_parent (h : s.outer = scope :: outer) :
    s.define outer.length name b = ⟨s.inner, scope.insert name b :: outer⟩ := by
  have hlt : outer.length < s.depth := by
    rw [depth, h, List.length_cons]
    omega
  unfold define modify
  rw [if_pos hlt]
  simp [current, h]

/-- All names of all scopes are bound as `Q` says. -/
def Every (Q : Text × Binding → Prop) (s : Scopes) : Prop :=
  ∀ scope ∈ s.inner :: s.outer, ∀ p ∈ scope, Q p

section Every

variable {Q : Text × Binding → Prop} {i : Nat}

theorem every_initial : initial.Every Q := by
  simp [Every, initial]

theorem Every.of_scope? (h : s.Every Q) (hscope : s.scope? i = some scope) : ∀ p ∈ scope, Q p := by
  rw [scope?_eq] at hscope
  split at hscope
  · exact h scope (List.mem_of_getElem? hscope)
  · cases hscope

theorem Every.of_local? (h : s.Every Q) (hb : s.local? i name = some b) : Q (name, b) := by
  obtain ⟨scope, hscope, hget⟩ := Option.bind_eq_some_iff.1 hb
  exact h.of_scope? hscope _ (Entries.mem_of_get? hget)

theorem Every.of_lookup? (h : s.Every Q) (hb : s.lookup? i name = some b) : Q (name, b) := by
  obtain ⟨scope, hscope, hget⟩ := List.exists_of_findSome?_eq_some hb
  refine h scope ?_ _ (Entries.mem_of_get? hget)
  unfold levels at hscope
  split at hscope
  · exact List.mem_of_mem_drop hscope
  · cases hscope

theorem Every.modify {f : Scope → Scope} (h : s.Every Q)
    (hf : ∀ scope : Scope, (∀ p ∈ scope, Q p) → ∀ p ∈ f scope, Q p) : (s.modify i f).Every Q := by
  have hall : ∀ scope ∈ (s.inner :: s.outer).modify (s.current - i) f, ∀ p ∈ scope, Q p := by
    intro scope hscope
    obtain ⟨k, hk⟩ := List.mem_iff_getElem?.1 hscope
    rw [List.getElem?_modify] at hk
    obtain ⟨scope, hscope', rfl⟩ := Option.map_eq_some_iff.1 hk
    have hold := h scope (List.mem_of_getElem? hscope')
    split
    · exact hf scope hold
    · exact hold
  unfold Scopes.modify
  split
  · split
    · exact h
    · next heq => rwa [heq] at hall
  · exact h

theorem Every.define (h : s.Every Q) (hb : Q (name, b)) : (s.define i name b).Every Q := by
  refine h.modify fun scope hscope p hp => ?_
  obtain rfl | hp := Entries.mem_insert hp
  · exact hb
  · exact hscope p hp

theorem Every.erase (h : s.Every Q) : (s.erase i name).Every Q :=
  h.modify fun _ hscope p hp => hscope p (Entries.mem_of_mem_erase hp)

theorem Every.pop (h : s.Every Q) : s.pop.Every Q := by
  obtain ⟨inner, outer⟩ := s
  cases outer with
  | nil => exact h
  | cons scope outer => exact fun scope hscope => h scope (List.mem_cons_of_mem _ hscope)

end Every

section Modifying

variable {s : Scopes} {f : Scope → Scope} {i k : Nat} {key : Text} {inner : Scope}

theorem local?_eq : s.local? k key = (s.scope? k).bind (Entries.get? key) := rfl

theorem scope?_modify :
    (s.modify i f).scope? k = if k = i then (s.scope? k).map f else s.scope? k := by
  by_cases hi : i < s.depth
  · obtain ⟨inner, outer, hcons⟩ : ∃ inner outer,
        (s.inner :: s.outer).modify (s.current - i) f = inner :: outer := by
      refine List.exists_cons_of_ne_nil (List.ne_nil_of_length_pos ?_)
      rw [List.length_modify]
      exact Nat.succ_pos _
    have hlength : outer.length = s.outer.length := by
      have := congrArg List.length hcons
      simpa using this.symm
    have hmodify : s.modify i f = ⟨inner, outer⟩ := by
      unfold modify
      rw [if_pos hi, hcons]
    have hdepth : depth ⟨inner, outer⟩ = s.depth := congrArg Nat.succ hlength
    have hcurrent : current ⟨inner, outer⟩ = s.current := hlength
    rw [hmodify, scope?_eq, scope?_eq, hdepth, hcurrent, ← hcons, List.getElem?_modify]
    by_cases hk : k < s.depth
    · have hiff : s.current - i = s.current - k ↔ k = i := by
        unfold depth at hi hk
        unfold current
        omega
      simp only [if_pos hk, hiff]
      split <;> simp
    · have hne : k ≠ i := fun h => hk (h ▸ hi)
      simp [hk, hne]
  · have hmodify : s.modify i f = s := if_neg hi
    rw [hmodify]
    split
    · next heq =>
      have hnone : s.scope? k = none := by rw [scope?_eq, if_neg (heq ▸ hi)]
      rw [hnone]
      rfl
    · rfl

@[simp] theorem local?_define_current :
    (s.define s.current name b).local? s.current name = some b := by
  have hscope : s.scope? s.current = some s.inner := by simp [scope?]
  rw [local?_eq, define, scope?_modify, if_pos rfl, hscope]
  simp [Entries.get?_insert]

theorem local?_define_of_ne (h : k = i → key ≠ name) :
    (s.define i name b).local? k key = s.local? k key := by
  rw [local?_eq, define, scope?_modify, local?_eq]
  split
  · next hk =>
    cases s.scope? k with
    | none => rfl
    | some scope => simp [Entries.get?_insert, h hk]
  · rfl

theorem local?_erase_of_ne (h : k = i → key ≠ name) :
    (s.erase i name).local? k key = s.local? k key := by
  rw [local?_eq, erase, scope?_modify, local?_eq]
  split
  · next hk =>
    cases s.scope? k with
    | none => rfl
    | some scope => simp [Entries.get?_erase, h hk]
  · rfl

theorem scope?_cons (hk : k < s.depth) :
    scope? ⟨inner, s.inner :: s.outer⟩ k = s.scope? k := by
  have hdepth : k < depth ⟨inner, s.inner :: s.outer⟩ := Nat.lt_succ_of_lt hk
  have hindex : current ⟨inner, s.inner :: s.outer⟩ - k = (s.current - k) + 1 := by
    unfold depth at hk
    unfold current
    rw [List.length_cons]
    omega
  rw [scope?_eq, scope?_eq, if_pos hdepth, if_pos hk, hindex, List.getElem?_cons_succ]

theorem scope?_pop (hk : k < s.current) : s.pop.scope? k = s.scope? k := by
  obtain ⟨inner, _ | ⟨scope, outer⟩⟩ := s
  · exact absurd hk (Nat.not_lt_zero k)
  · exact (scope?_cons (s := ⟨scope, outer⟩) hk).symm

theorem le_current_pop (hk : k < s.current) : k ≤ s.pop.current := by
  obtain ⟨inner, _ | ⟨scope, outer⟩⟩ := s
  · exact absurd hk (Nat.not_lt_zero k)
  · exact Nat.le_of_lt_succ hk

end Modifying

end Scopes

namespace Session

/-- The scope of a call holds its bindings, and those that were there are around it. -/
theorem scopes_opened (bindings : Scope) (s : Session) :
    (s.opened bindings).scopes =
      ⟨Entries.insertAll [] bindings, s.scopes.inner :: s.scopes.outer⟩ := by
  have hfold : ∀ (inner : Scope) (outer : List Scope),
      bindings.foldl (fun (s : Scopes) p => s.define s.current p.1 p.2) ⟨inner, outer⟩ =
        ⟨inner.insertAll bindings, outer⟩ := by
    induction bindings with
    | nil => exact fun _ _ => rfl
    | cons p bindings ih =>
      intro inner outer
      rw [List.foldl_cons, Scopes.define_current]
      exact ih _ _
  exact hfold [] _

theorem every_opened {Q : Text × Binding → Prop} {bindings : Scope} {s : Session}
    (h : s.scopes.Every Q) (hbindings : ∀ p ∈ bindings, Q p) :
    (s.opened bindings).scopes.Every Q := by
  rw [scopes_opened]
  refine List.forall_mem_cons.2 ⟨fun p hp => ?_, h⟩
  obtain hp | hp := Entries.mem_insertAll hp
  · cases hp
  · exact hbindings p hp

end Session

end Stencil
