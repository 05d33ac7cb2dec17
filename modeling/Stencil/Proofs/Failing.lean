import Stencil.Proofs.Descent

/-! Why a template or what it imports has no program: which step of a compilation failed, and with
which failure. -/
namespace Stencil

open Stencil.Action

namespace Use

variable {host : Host} {c : Config} {u : Use} {j k : Journal} {s : Stop}

@[simp] theorem stops_checkCycle {chain : List Text} {key : Text} :
    (u.checkCycle chain key).Stops j s k ↔
      key ∈ chain ∧ s = .failed ⟨[], .importing (.cycle (chain ++ [key])), u.location⟩ ∧ k = j := by
  unfold checkCycle
  split
  · next h => simp_all
  · next h => simp_all

/-- Content is refused as a cycle where it is being imported, and only there. -/
theorem stops_enter {chain : List Text} {a : Aim} (h : (u.enter host c chain a).Stops j s k) :
    (c.keyOf a.target ∈ chain ∧ k = j ∧
      s = .failed ⟨[], .importing (.cycle (chain ++ [c.keyOf a.target])), u.location⟩) ∨
    c.keyOf a.target ∉ chain ∧ u.Faults s := by
  obtain h | ⟨_, i, hcycle, h₁⟩ := stops_bind.1 h
  · obtain ⟨hmem, rfl, rfl⟩ := stops_checkCycle.1 h
    exact .inl ⟨hmem, rfl, rfl⟩
  obtain ⟨hnot, rfl⟩ := runs_checkCycle.1 hcycle
  exact .inr ⟨hnot, (obeys_receive chain a).fails h₁⟩

theorem stops_enter_of_mem {chain : List Text} {a : Aim} (hmem : c.keyOf a.target ∈ chain) :
    (u.enter host c chain a).Stops j
      (.failed ⟨[], .importing (.cycle (chain ++ [c.keyOf a.target])), u.location⟩) j :=
  stops_bind.2 (.inl (stops_checkCycle.2 ⟨hmem, rfl, rfl⟩))

theorem stops_resolve {chain : List Text} {a : Aim} {i : Journal}
    (haim : (u.aim host c).Runs j (some a) i) (henter : (u.enter host c chain a).Stops i s k)
    (nested : Text → Config → List Text → Action (List Node)) :
    (u.resolve host c nested chain).Stops j s k := by
  rw [resolve_eq]
  exact stops_bind.2 (.inr ⟨_, _, haim, stops_bind.2 (.inl henter)⟩)

end Use

variable {host : Host} {c : Config} {t : Task} {j k : Journal}

/-- A task fails itself, and none of the content that it enters. -/
inductive Task.Fails (host : Host) (t : Task) (j : Journal) : Stop → Journal → Prop where
  | unread {s : Stop} {k : Journal} (h : (read t.content t.config).Stops j s k) :
      Fails host t j s k
  | unaimed {u : Use} {c : Config} {s : Stop} {i k : Journal} (hcomes : Comes host t j u c i)
      (h : (u.aim host c).Stops i s k) : Fails host t j s k
  | unentered {u : Use} {c : Config} {a : Aim} {s : Stop} {i i' k : Journal}
      (hcomes : Comes host t j u c i) (haim : (u.aim host c).Runs i (some a) i')
      (h : (u.enter host c t.chain a).Stops i' s k) : Fails host t j s k

/-- A task has no result where no step was left, it fails itself, or content that it enters does. -/
theorem stops_cases {depth : Nat} {s : Stop} (h : (t.compile host depth).Stops j s k) :
    (depth = 0 ∧ s = .exhausted) ∨ t.Fails host j s k ∨
      ∃ p t' i d, Enters host t j p t' i ∧ depth = d + 1 ∧
        (within p.asInclude (t'.compile host d)).Stops i s k := by
  cases depth with
  | zero => exact .inl ⟨rfl, (stops_throw.1 h).1⟩
  | succ depth =>
    right
    obtain h | ⟨⟨program, c⟩, i, hread, h₁⟩ := stops_bind.1 h
    · exact .inl (.unread h)
    obtain h₂ | ⟨_, i', -, h₂⟩ := stops_bind.1 h₁
    · obtain ⟨before, u, after, done, i', huses, hbefore, hu⟩ := stops_mapM.1 h₂
      have hcomes : Comes host t j u c i' := .intro hread huses hbefore
      rw [Use.resolve_eq] at hu
      obtain haim | ⟨a?, i₁, haim, hu⟩ := stops_bind.1 hu
      · exact .inl (.unaimed hcomes haim)
      cases a? with
      | none => exact absurd hu stops_pure
      | some a =>
        obtain henter | ⟨t', i₂, henter, hnested⟩ := stops_bind.1 hu
        · exact .inl (.unentered hcomes haim henter)
        · exact .inr ⟨_, t', i₂, depth, .intro hcomes haim henter, rfl, hnested⟩
    · exact absurd h₂ stops_pure

theorem stops_compile {depth : Nat} {s : Stop} (h : (t.compile host depth).Stops j s k) :
    (depth = 0 ∧ s = .exhausted) ∨
    Unreadable s ∨
    ∃ u c i, Comes host t j u c i ∧ (u.Faults s ∨
      (∃ a, (u.aim host c).Runs i (some a) k ∧ c.keyOf a.target ∈ t.chain ∧
        s = .failed ⟨[], .importing (.cycle (t.chain ++ [c.keyOf a.target])), u.location⟩) ∨
      ∃ p t' i' d, Enters host t j p t' i' ∧ depth = d + 1 ∧
        (within p.asInclude (t'.compile host d)).Stops i' s k) := by
  refine (stops_cases h).imp_right ?_
  rintro (hfails | ⟨p, t', i, d, henters, hd, hnested⟩)
  · cases hfails with
    | unread h => exact .inl ((obeys_read (P := fun _ => False) _).fails h)
    | unaimed hcomes h => exact .inr ⟨_, _, _, hcomes, .inl (Use.obeys_aim.fails h)⟩
    | unentered hcomes haim h =>
      refine .inr ⟨_, _, _, hcomes, ?_⟩
      obtain ⟨hmem, rfl, hs⟩ | ⟨-, hfaults⟩ := Use.stops_enter h
      · exact .inr (.inl ⟨_, haim, hmem, hs⟩)
      · exact .inl hfaults
  · obtain ⟨hcomes, haim, henter⟩ := henters
    exact .inr ⟨_, _, _, hcomes, .inr (.inr ⟨_, t', i, d, .intro hcomes haim henter, hd, hnested⟩)⟩

theorem Task.Fails.exists_failed {s : Stop} (h : t.Fails host j s k) :
    ∃ cause l, s = .failed ⟨[], cause, l⟩ := by
  have fault : ∀ {u : Use}, u.Faults s → ∃ cause l, s = .failed ⟨[], cause, l⟩ :=
    fun ⟨cause, hs, _⟩ => ⟨.importing cause, _, hs⟩
  cases h with
  | unread h =>
    obtain ⟨cause, l, hs, -⟩ : Unreadable s := (obeys_read (P := fun _ => False) _).fails h
    exact ⟨cause, l, hs⟩
  | unaimed _ h => exact fault (Use.obeys_aim.fails h)
  | unentered _ _ h =>
    obtain ⟨-, -, hs⟩ | ⟨-, hfaults⟩ := Use.stops_enter h
    · exact ⟨_, _, hs⟩
    · exact fault hfaults

section Stopping

variable {u : Use} {c : Config} {t' : Task} {s : Stop} {i : Journal}

theorem Comes.stops (h : Comes host t j u c i) (least : Nat)
    (hu : ∀ depth, least ≤ depth →
      (u.resolve host c (compileImport host depth) t.chain).Stops i s k) :
    ∃ least, ∀ depth, least ≤ depth → (t.compile host depth).Stops j s k := by
  obtain ⟨hread, huses, hbefore⟩ := h
  next program before after contributions depth₀ i₀ =>
  refine ⟨max depth₀ least + 1, fun depth hdepth => ?_⟩
  obtain ⟨depth, rfl⟩ : ∃ d, depth = d + 1 := ⟨depth - 1, by omega⟩
  have hdeep : (before.mapM fun (v : Use) =>
      v.resolve host c (compileImport host depth) t.chain).Runs i₀ contributions i :=
    (Refines.mapM _ fun v => Use.resolve_refines _ fun content c chain =>
      Task.compile_refines (t := ⟨content, c, chain⟩) (by omega)).runs hbefore
  refine stops_bind.2 (.inr ⟨_, _, hread, stops_bind.2 (.inl ?_)⟩)
  exact stops_mapM.2 ⟨before, u, after, contributions, i, huses, hdeep, hu depth (by omega)⟩

theorem Task.Fails.stops (h : t.Fails host j s k) :
    ∃ least, ∀ depth, least ≤ depth → (t.compile host depth).Stops j s k := by
  cases h with
  | unread h =>
    refine ⟨1, fun depth hdepth => ?_⟩
    obtain ⟨depth, rfl⟩ : ∃ d, depth = d + 1 := ⟨depth - 1, by omega⟩
    exact stops_bind.2 (.inl h)
  | unaimed hcomes h =>
    refine hcomes.stops 0 fun depth _ => ?_
    rw [Use.resolve_eq]
    exact stops_bind.2 (.inl h)
  | unentered hcomes haim h => exact hcomes.stops 0 fun depth _ => Use.stops_resolve haim h _

/-- A failure of an import shows outside with the imports around it. -/
theorem Reaches.stops {path : List Passage} {f : Failure} (h : Reaches host t j path t' i)
    (least : Nat) (ht : ∀ depth, least ≤ depth → (t'.compile host depth).Stops i (.failed f) k) :
    ∃ least, ∀ depth, least ≤ depth → (t.compile host depth).Stops j
      (.failed ⟨path.map Passage.asInclude ++ f.includes, f.cause, f.location⟩) k := by
  induction h with
  | here t j => exact ⟨least, ht⟩
  | through first _ ih =>
    obtain ⟨least, hrest⟩ := ih ht
    obtain ⟨hcomes, haim, henter⟩ := first
    refine hcomes.stops least fun depth hdepth => ?_
    rw [Use.resolve_eq]
    refine stops_bind.2 (.inr ⟨_, _, haim, stops_bind.2 (.inr ⟨_, _, henter, ?_⟩)⟩)
    exact stops_within.2 (.inl ⟨_, rfl, hrest depth hdepth⟩)

/-- A task fails alike where imports may not nest so deep, unless that is why. -/
theorem Task.stops_of_deep {least : Nat}
    (h : ∀ depth, least ≤ depth → (t.compile host depth).Stops j s k) (depth : Nat) :
    (∃ k', (t.compile host depth).Stops j .exhausted k') ∨ (t.compile host depth).Stops j s k := by
  obtain hexhausted | heq := Task.compile_refines (t := t) (Nat.le_max_left depth least) j
  · exact .inl hexhausted
  · exact .inr (heq.trans (h _ (Nat.le_max_right depth least)))

end Stopping

end Stencil
