import Stencil.Proofs.Deeds

/-! What rendering a node leaves alone: all scopes around the innermost one, except that its parent
is given what `\toparent` copies there. -/
namespace Stencil

open Stencil.Rendering

/-- The scopes around the innermost one are those of `s`, but for bindings in the first of them that
are as `E` says. -/
def Scopes.Frame (E : Text × Binding → Prop) (s t : Scopes) : Prop :=
  ∃ exports : Scope, (∀ p ∈ exports, E p) ∧
    t.outer = s.outer.modifyHead fun scope => scope.insertAll exports

namespace Scopes

variable {E F : Text × Binding → Prop} {s t u : Scopes} {i : Nat}

theorem Frame.of_outer_eq (h : t.outer = s.outer) : Frame E s t := by
  refine ⟨[], nofun, ?_⟩
  rw [h]
  cases s.outer <;> rfl

theorem Frame.refl (s : Scopes) : Frame E s s := .of_outer_eq rfl

theorem Frame.mono (h : Frame E s t) (hEF : ∀ p, E p → F p) : Frame F s t := by
  obtain ⟨exports, hexports, houter⟩ := h
  exact ⟨exports, fun p hp => hEF p (hexports p hp), houter⟩

theorem Frame.trans (h : Frame E s t) (h' : Frame E t u) : Frame E s u := by
  obtain ⟨exports, hexports, houter⟩ := h
  obtain ⟨exports', hexports', houter'⟩ := h'
  refine ⟨exports ++ exports', fun p hp => ?_, ?_⟩
  · exact (List.mem_append.1 hp).elim (hexports p) (hexports' p)
  · rw [houter', houter]
    cases s.outer with
    | nil => rfl
    | cons scope outer => simp [Entries.insertAll, List.foldl_append]

theorem Frame.depth_eq (h : Frame E s t) : t.depth = s.depth := by
  obtain ⟨exports, -, houter⟩ := h
  simp [depth, houter]

theorem Frame.current_eq (h : Frame E s t) : t.current = s.current :=
  Nat.succ.inj h.depth_eq

theorem scope?_of_lt (h : i < s.current) : s.scope? i = s.outer[s.current - i - 1]? := by
  have hlt : i < s.depth := Nat.lt_succ_of_lt h
  have hpos : s.current - i = s.current - i - 1 + 1 := by omega
  rw [scope?_eq, if_pos hlt, hpos, List.getElem?_cons_succ, Nat.add_sub_cancel]

theorem Frame.scope?_eq (h : Frame E s t) (hi : i + 1 < s.current) : t.scope? i = s.scope? i := by
  have hcurrent := h.current_eq
  obtain ⟨exports, -, houter⟩ := h
  rw [scope?_of_lt (by omega), scope?_of_lt (by omega), hcurrent, houter,
    List.getElem?_modifyHead, if_neg (by omega)]

theorem Frame.scope?_parent (h : Frame E s t) (hi : i + 1 = s.current) :
    ∃ scope exports : Scope, s.scope? i = some scope ∧
      t.scope? i = some (scope.insertAll exports) ∧ ∀ p ∈ exports, E p := by
  have hcurrent := h.current_eq
  obtain ⟨exports, hexports, houter⟩ := h
  have hzero : s.current - i - 1 = 0 := by omega
  have hlength : 0 < s.outer.length := by
    have : s.current = s.outer.length := rfl
    omega
  refine ⟨s.outer[0], exports, ?_, ?_, hexports⟩
  · rw [scope?_of_lt (by omega), hzero, List.getElem?_eq_getElem hlength]
  · rw [scope?_of_lt (by omega), hcurrent, hzero, houter, List.getElem?_modifyHead,
      List.getElem?_eq_getElem hlength]
    rfl

end Scopes

section Exporting

variable {host : Host} {c : Config} {steps : Nat} {n : Node} {s t u : Session} {bindings : Scope}
  {E F : Text × Binding → Prop}

/-- While a node is visited from `s`, `\toparent` copies a binding from the innermost scope of
`s`. -/
inductive Exports (host : Host) (c : Config) (steps : Nat) (n : Node) (s : Session) :
    Text × Binding → Prop where
  | intro {name : Text} {b : Binding} {l : Location} {t : Session}
      (acts : Acts host c steps n s (.builtin .toParent [name]) l t)
      (hscope : t.scopes.current = s.scopes.current) (hname : isReserved name.trim = false)
      (hbound : t.scopes.local? t.scopes.current name.trim = some b) :
      Exports host c steps n s (name.trim, b)

theorem Exports.part {form : Form Node} {l : Location} {p : Text × Binding}
    (first : Begins (visit host c steps) s form n t) (hscope : t.scopes.current = s.scopes.current)
    (h : Exports host c steps n t p) : Exports host c (steps + 1) (.mk form l) s p := by
  obtain ⟨acts, hscope', hname, hbound⟩ := h
  exact .intro (acts.part first) (hscope'.trans hscope) hname hbound

theorem Scopes.Frame.closed (h : Frame E (t.opened bindings).scopes u.scopes) :
    Frame F t.scopes u.closed.scopes := by
  obtain ⟨exports, -, houter⟩ := h
  rw [Session.scopes_opened, List.modifyHead_cons] at houter
  refine .of_outer_eq ?_
  rw [Session.scopes_closed, pop, houter]

/-- A construct changes the innermost scope, or copies one of its bindings to its parent. -/
theorem Deed.Changes.frame {d : Deed} {scopes scopes' : Scopes} (h : d.Changes scopes scopes') :
    Scopes.Frame (fun p => ∃ name, d = .builtin .toParent [name] ∧ name.trim = p.1 ∧
      isReserved p.1 = false ∧ scopes.local? scopes.current p.1 = some p.2) scopes scopes' := by
  cases h with
  | exported hname hbound hparent =>
    next name b parent =>
    obtain ⟨scope, outer, houter, rfl⟩ := Scopes.parent?_current_eq_some.1 hparent
    refine ⟨[(name.trim, b)], fun p hp => ?_, ?_⟩
    · obtain rfl := List.mem_singleton.1 hp
      exact ⟨name, rfl, rfl, hname, hbound⟩
    · rw [Scopes.define_parent houter, houter]
      rfl
  | assigned => exact .of_outer_eq (by rw [Scopes.define_current])
  | defined => exact .of_outer_eq (by rw [Scopes.define_current])
  | imported => exact .of_outer_eq (by rw [Scopes.define_current])
  | deleted => exact .of_outer_eq (by rw [Scopes.erase_current])

theorem Deed.frame_run (d : Deed) (l : Location) (s : Session) :
    Scopes.Frame (fun p => ∃ name, d = .builtin .toParent [name] ∧ name.trim = p.1 ∧
      isReserved p.1 = false ∧ s.scopes.local? s.scopes.current p.1 = some p.2) s.scopes
      ((d.run host c l).final s).scopes :=
  Deed.final_of (P := fun t => Scopes.Frame _ s.scopes t.scopes) (.refl _) (fun _ _ h => h)
    (fun _ _ _ _ _ _ h => h) fun _ h => h.frame

/-- A visit leaves all scopes around the innermost one alone, except for what it exports. -/
theorem frame_visit (host : Host) (c : Config) (steps : Nat) (n : Node) (s : Session) :
    Scopes.Frame (Exports host c steps n s) s.scopes ((visit host c steps n).final s).scopes := by
  induction steps generalizing n s with
  | zero => exact .refl _
  | succ steps ih =>
    obtain ⟨form, l⟩ := n
    refine final_visit_of (P := fun t => Scopes.Frame _ s.scopes t.scopes) (.refl _) ?_ ?_ ?_
    · intro n t hbegins ht
      exact ht.trans ((ih n t).mono fun p hp => hp.part hbegins ht.current_eq)
    · intro n bindings t _ ht
      exact ht.trans (ih n (t.opened bindings)).closed
    · intro d l' t hdoes ht
      refine ht.trans ((d.frame_run l' t).mono ?_)
      rintro ⟨-, b⟩ ⟨name, rfl, rfl, hname, hbound⟩
      exact .intro (.intro (.here _ _ _) hdoes) ht.current_eq hname hbound

theorem Calls.outcome_visit {form : Form Node} {l : Location} {body : Node}
    (h : Calls (visit host c steps) s form body bindings t) :
    (visit host c (steps + 1) (.mk form l)).outcome s =
      (((visit host c steps body).outcome (t.opened bindings)).1,
        ((visit host c steps body).final (t.opened bindings)).closed) := by
  obtain ⟨hready, hname, hbound, hlength⟩ := h
  rw [hready.outcome_visit]
  unfold runCall
  simp only [hname, outcome_bind, outcome_scopes, hbound, Binding.params, hlength, ne_eq,
    not_true_eq_false, if_false, outcome_inScope]

/-- A call leaves the scopes around the caller as they were, and the caller what the body
exports. -/
theorem Calls.frame {form : Form Node} {l : Location} {body : Node}
    (h : Calls (visit host c steps) s form body bindings t) :
    ∃ exports : Scope, (∀ p ∈ exports, Exports host c steps body (t.opened bindings) p) ∧
      ((visit host c (steps + 1) (.mk form l)).final s).scopes =
        ⟨t.scopes.inner.insertAll exports, t.scopes.outer⟩ := by
  obtain ⟨exports, hexports, houter⟩ := frame_visit host c steps body (t.opened bindings)
  refine ⟨exports, hexports, ?_⟩
  rw [Session.scopes_opened, List.modifyHead_cons] at houter
  rw [final, h.outcome_visit, Session.scopes_closed, Scopes.pop, houter]

theorem Deed.scope?_toParent (name : Text) (l : Location) {i : Nat}
    (hi : i + 1 ≠ s.scopes.current) :
    (((Deed.builtin .toParent [name]).run host c l).final s).scopes.scope? i =
      s.scopes.scope? i := by
  refine Deed.final_of (P := fun t => t.scopes.scope? i = s.scopes.scope? i) rfl
    (fun _ _ h => h) (fun _ _ _ _ _ _ h => h) fun scopes hchanges => ?_
  cases hchanges with
  | exported _ _ hparent =>
    obtain ⟨scope, outer, houter, rfl⟩ := Scopes.parent?_current_eq_some.1 hparent
    rw [Session.scopes_withScopes, Scopes.define_parent houter, Scopes.scope?_eq, Scopes.scope?_eq]
    have hget : ∀ (other : Scope), ∀ k ≠ 1, (s.scopes.inner :: other :: outer)[k]? =
        (s.scopes.inner :: scope :: outer)[k]? := by
      rintro other (_ | _ | k) hk
      · rfl
      · exact absurd rfl hk
      · rfl
    simp only [Scopes.depth, Scopes.current, houter, List.length_cons] at hi ⊢
    rw [hget _ _ (by omega)]
    rfl

/-- A visit, also one that stops, keeps the number of scopes and all those around the innermost one,
but for what `\toparent` exports from there to the parent. -/
theorem scopes_visit (steps : Nat) (n : Node) (s : Session) :
    let t := ((visit host c steps n).final s).scopes
    t.depth = s.scopes.depth ∧
    (∀ i, i + 1 < s.scopes.current → t.scope? i = s.scopes.scope? i) ∧
    (∀ i, i + 1 = s.scopes.current → ∃ scope exports : Scope, s.scopes.scope? i = some scope ∧
      t.scope? i = some (scope.insertAll exports) ∧ ∀ p ∈ exports, Exports host c steps n s p) ∧
    (∀ k form l body bindings u, steps = k + 1 → n = .mk form l →
      Calls (visit host c k) s form body bindings u →
        ∃ exports : Scope, t = ⟨u.scopes.inner.insertAll exports, u.scopes.outer⟩ ∧
          ∀ p ∈ exports, Exports host c k body (u.opened bindings) p) ∧
    (∀ name l u, Acts host c steps n s (.builtin .toParent [name]) l u →
      ∀ i, i + 1 ≠ u.scopes.current →
        (((Deed.builtin .toParent [name]).run host c l).final u).scopes.scope? i =
          u.scopes.scope? i) ∧
    ∀ i, i < s.scopes.current → t.scope? i ≠ s.scopes.scope? i →
      i + 1 = s.scopes.current ∧ ∃ name l u,
        Acts host c steps n s (.builtin .toParent [name]) l u ∧ u.scopes.current = i + 1 := by
  have hframe := frame_visit host c steps n s
  refine ⟨hframe.depth_eq, fun i hi => hframe.scope?_eq hi, fun i hi => hframe.scope?_parent hi,
    ?_, ?_, ?_⟩
  · rintro k form l body bindings u rfl rfl hcalls
    obtain ⟨exports, hexports, heq⟩ := hcalls.frame (l := l)
    exact ⟨exports, heq, hexports⟩
  · exact fun name l u _ i hi => Deed.scope?_toParent name l hi
  · intro i hi hne
    have hparent : i + 1 = s.scopes.current := by
      by_contra hfar
      exact hne (hframe.scope?_eq (by omega))
    obtain ⟨scope, exports, hbefore, hafter, hexports⟩ := hframe.scope?_parent hparent
    refine ⟨hparent, ?_⟩
    cases exports with
    | nil => exact absurd (hafter.trans hbefore.symm) hne
    | cons p exports =>
      obtain ⟨acts, hscope, -, -⟩ := hexports p List.mem_cons_self
      exact ⟨_, _, _, acts, hscope.trans hparent.symm⟩

/-- A function binds two variables and exports one of them. -/
theorem scopes_visit_call : ∃ (host : Host) (c : Config) (s u : Session) (form : Form Node)
    (body : Node) (bindings : Scope), Calls (visit host c 3) s form body bindings u ∧
      ((visit host c 4 (.mk form .start)).final s).scopes =
        ⟨[(['g'], .function [] body), (['$', 'x'], .text ['1'])], []⟩ ∧
      ∃ exports : Scope, ((visit host c 4 (.mk form .start)).final s).scopes =
          ⟨u.scopes.inner.insertAll exports, u.scopes.outer⟩ ∧
        ∀ p ∈ exports, Exports host c 3 body (u.opened bindings) p := by
  let host : Host := .offline fun _ => .error ""
  let text (t : Text) : Node := .mk (.raw t) .start
  let command (name : Text) (args : List Node) : Node := .mk (.call name none args) .start
  let body : Node := .mk (.group [command "var".toList [text ['x'], text ['1']],
    command "toparent".toList [text ['$', 'x']],
    command "var".toList [text ['y'], text ['2']]]) .start
  let s : Session := ⟨⟨[(['g'], .function [] body)], []⟩, .empty⟩
  have hready : Readies (visit host .initial 3) none [] s [] [] s := ⟨s, rfl, rfl⟩
  have hbound : s.scopes.lookup? s.scopes.current ['g'] = some (.function [] body) := rfl
  have hcalls : Calls (visit host .initial 3) s (.call ['g'] none []) body [] s :=
    .intro hready rfl hbound rfl
  refine ⟨host, .initial, s, s, _, body, _, hcalls, rfl, ?_⟩
  exact (scopes_visit 4 (.mk (.call ['g'] none []) .start) s).2.2.2.1 3 _ _ _ _ _ rfl rfl hcalls

end Exporting

end Stencil
