import Mathlib.Logic.Basic
import Stencil.Journal

/-! Runs that keep a journal: how a run ends, and what it means that it gives a result, taken apart
the way an action is put together. -/
namespace Stencil
namespace Action

variable {α β : Type}

/-- How a run ends that begins with a journal, and the journal after it. -/
def outcome (a : Action α) (j : Journal) : Except Stop α × Journal := a.run.run j

section Outcomes

variable {a : Action α} {j k : Journal} {x : α}

@[simp] theorem outcome_pure (x : α) (j : Journal) : outcome (pure x) j = (.ok x, j) := rfl

@[simp] theorem outcome_throw (s : Stop) (j : Journal) :
    outcome (throw s : Action α) j = (.error s, j) := rfl

@[simp] theorem outcome_fail (cause : Cause) (l : Location) (j : Journal) :
    outcome (fail cause l : Action α) j = (.error (.failed ⟨[], cause, l⟩), j) := rfl

@[simp] theorem outcome_note (n : Notice) (l : Location) (j : Journal) :
    outcome (note n l) j = (.ok (), j.note n l) := rfl

@[simp] theorem outcome_call (c : Call) (j : Journal) :
    outcome (call c) j = (.ok (), j.call c) := rfl

@[simp] theorem outcome_answers (host : Host) (j : Journal) :
    outcome (answers host) j = (.ok (host.answers j.calls), j) := rfl

theorem outcome_bind (a : Action α) (f : α → Action β) (j : Journal) :
    outcome (a >>= f) j =
      match outcome a j with
      | (.ok x, k) => outcome (f x) k
      | (.error s, k) => (.error s, k) := by
  unfold outcome
  rw [ExceptT.run_bind, StateT.run_bind]
  match StateT.run a.run j with
  | (.ok x, k) => rfl
  | (.error s, k) => rfl

theorem outcome_within (i : Include) (a : Action α) (j : Journal) :
    outcome (within i a) j =
      match outcome a j with
      | (.ok x, k) => (.ok x, k)
      | (.error (.failed f), k) => (.error (.failed (f.within i)), k)
      | (.error .exhausted, k) => (.error .exhausted, k) := by
  unfold outcome within
  rw [ExceptT.run_tryCatch, StateT.run_bind]
  match StateT.run a.run j with
  | (.ok x, k) => rfl
  | (.error (.failed f), k) => rfl
  | (.error .exhausted, k) => rfl

end Outcomes

/-- The run gives `x`, and takes the journal from `j` to `k`. -/
def Runs (a : Action α) (j : Journal) (x : α) (k : Journal) : Prop := a.outcome j = (.ok x, k)

variable {a : Action α} {j k : Journal} {x : α}

@[simp] theorem runs_pure {y : α} : Runs (pure x) j y k ↔ y = x ∧ k = j := by
  simp [Runs, eq_comm]

@[simp] theorem runs_throw {s : Stop} : ¬ Runs (throw s : Action α) j x k := by
  simp [Runs]

@[simp] theorem runs_fail {cause : Cause} {l : Location} :
    ¬ Runs (fail cause l : Action α) j x k := runs_throw

@[simp] theorem runs_note {n : Notice} {l : Location} {u : Unit} :
    (note n l).Runs j u k ↔ k = j.note n l := by
  simp [Runs, eq_comm]

@[simp] theorem runs_call {c : Call} {u : Unit} : (call c).Runs j u k ↔ k = j.call c := by
  simp [Runs, eq_comm]

@[simp] theorem runs_answers {host : Host} {y : Answers} :
    (answers host).Runs j y k ↔ y = host.answers j.calls ∧ k = j := by
  simp [Runs, eq_comm]

theorem runs_bind {f : α → Action β} {y : β} :
    (a >>= f).Runs j y k ↔ ∃ x i, a.Runs j x i ∧ (f x).Runs i y k := by
  unfold Runs
  rw [outcome_bind]
  match a.outcome j with
  | (.ok x, i) => simp [and_assoc]
  | (.error s, i) => simp

@[simp] theorem runs_within {i : Include} : (within i a).Runs j x k ↔ a.Runs j x k := by
  unfold Runs
  rw [outcome_within]
  match a.outcome j with
  | (.ok x, l) => simp
  | (.error (.failed f), l) => simp
  | (.error .exhausted, l) => simp

/-- The run fails with `s`, and takes the journal from `j` to `k`. -/
def Stops (a : Action α) (j : Journal) (s : Stop) (k : Journal) : Prop :=
  a.outcome j = (.error s, k)

section Stopping

variable {s : Stop}

@[simp] theorem stops_pure : ¬ Stops (pure x) j s k := by
  simp [Stops]

@[simp] theorem stops_throw {t : Stop} : Stops (throw t : Action α) j s k ↔ s = t ∧ k = j := by
  simp [Stops, eq_comm]

@[simp] theorem stops_fail {cause : Cause} {l : Location} :
    Stops (fail cause l : Action α) j s k ↔ s = .failed ⟨[], cause, l⟩ ∧ k = j := stops_throw

@[simp] theorem stops_note {n : Notice} {l : Location} : ¬ (note n l).Stops j s k := by
  simp [Stops]

@[simp] theorem stops_call {c : Call} : ¬ (call c).Stops j s k := by
  simp [Stops]

@[simp] theorem stops_answers {host : Host} : ¬ (answers host).Stops j s k := by
  simp [Stops]

theorem stops_bind {f : α → Action β} :
    (a >>= f).Stops j s k ↔ a.Stops j s k ∨ ∃ x i, a.Runs j x i ∧ (f x).Stops i s k := by
  unfold Stops Runs
  rw [outcome_bind]
  match a.outcome j with
  | (.ok x, i) => simp [and_assoc]
  | (.error s, i) => simp

theorem stops_within {i : Include} : (within i a).Stops j s k ↔
    (∃ f, s = .failed (f.within i) ∧ a.Stops j (.failed f) k) ∨
      s = .exhausted ∧ a.Stops j .exhausted k := by
  unfold Stops
  rw [outcome_within]
  match a.outcome j with
  | (.ok x, l) => simp
  | (.error (.failed f), l) =>
    simp only [Prod.mk.injEq, Except.error.injEq, Stop.failed.injEq, reduceCtorEq, false_and,
      and_false, or_false]
    constructor
    · rintro ⟨rfl, rfl⟩
      exact ⟨f, rfl, rfl, rfl⟩
    · rintro ⟨f', rfl, rfl, rfl⟩
      exact ⟨rfl, rfl⟩
  | (.error .exhausted, l) => simp [eq_comm]

end Stopping

theorem runs_or_stops (a : Action α) (j : Journal) :
    (∃ x k, a.Runs j x k) ∨ ∃ s k, a.Stops j s k := by
  unfold Runs Stops
  match a.outcome j with
  | (.ok x, k) => exact .inl ⟨x, k, rfl⟩
  | (.error s, k) => exact .inr ⟨s, k, rfl⟩

theorem Runs.unique {y : α} {i : Journal} (h : a.Runs j x k) (h' : a.Runs j y i) :
    x = y ∧ k = i := by
  simpa [Runs] using h.symm.trans h'

theorem Runs.not_stops {s : Stop} {i : Journal} (h : a.Runs j x k) : ¬ a.Stops j s i := by
  intro h'
  simpa using h.symm.trans h'

theorem ext {b : Action α} (h : ∀ j, a.outcome j = b.outcome j) : a = b := by
  refine ExceptT.ext (StateT.ext fun j => ?_)
  exact h j

section Lists

variable {f : α → Action β} {xs xs' : List α} {ys : List β} {s : Stop}

/-- What is done for the items of a list, one after another. -/
inductive Each (R : α → Journal → β → Journal → Prop) :
    Journal → List α → List β → Journal → Prop where
  | nil (j : Journal) : Each R j [] [] j
  | cons {j i k : Journal} {x : α} {y : β} {xs : List α} {ys : List β} (head : R x j y i)
      (tail : Each R i xs ys k) : Each R j (x :: xs) (y :: ys) k

theorem Each.imp {R S : α → Journal → β → Journal → Prop} (h : Each R j xs ys k)
    (hRS : ∀ x ∈ xs, ∀ j y k, R x j y k → S x j y k) : Each S j xs ys k := by
  induction h with
  | nil j => exact .nil j
  | cons head _ ih =>
    refine .cons (hRS _ List.mem_cons_self _ _ _ head) (ih fun x hx => ?_)
    exact hRS x (List.mem_cons_of_mem _ hx)

theorem Each.exists_of_mem {R : α → Journal → β → Journal → Prop} (h : Each R j xs ys k)
    (hx : x ∈ xs) : ∃ i y i', R x i y i' := by
  induction h with
  | nil => cases hx
  | cons head _ ih =>
    obtain rfl | hx := List.mem_cons.1 hx
    · exact ⟨_, _, _, head⟩
    · exact ih hx

theorem runs_mapM : (xs.mapM f).Runs j ys k ↔ Each (fun x => (f x).Runs) j xs ys k := by
  induction xs generalizing j ys with
  | nil =>
    rw [List.mapM_nil, runs_pure]
    constructor
    · rintro ⟨rfl, rfl⟩
      exact .nil k
    · rintro ⟨⟩
      exact ⟨rfl, rfl⟩
  | cons x xs ih =>
    simp only [List.mapM_cons, runs_bind, runs_pure]
    constructor
    · rintro ⟨y, i, hy, zs, i', hzs, rfl, rfl⟩
      exact .cons hy (ih.1 hzs)
    · rintro (_ | ⟨hy, htail⟩)
      exact ⟨_, _, hy, _, _, ih.2 htail, rfl, rfl⟩

theorem runs_mapM_append : ((xs ++ xs').mapM f).Runs j ys k ↔
    ∃ zs i zs', (xs.mapM f).Runs j zs i ∧ (xs'.mapM f).Runs i zs' k ∧ ys = zs ++ zs' := by
  simp only [List.mapM_append, runs_bind, runs_pure]
  constructor
  · rintro ⟨zs, i, hzs, zs', i', hzs', rfl, rfl⟩
    exact ⟨zs, i, zs', hzs, hzs', rfl⟩
  · rintro ⟨zs, i, zs', hzs, hzs', rfl⟩
    exact ⟨zs, i, hzs, zs', k, hzs', rfl, rfl⟩

theorem exists_runs_of_mem (h : (xs.mapM f).Runs j ys k) (hy : y ∈ ys) :
    ∃ before x after zs i i', xs = before ++ x :: after ∧ (before.mapM f).Runs j zs i ∧
      (f x).Runs i y i' := by
  have heach := runs_mapM.1 h
  clear h
  induction heach with
  | nil => cases hy
  | @cons j i k x y' xs ys head tail ih =>
    obtain rfl | hy := List.mem_cons.1 hy
    · exact ⟨[], x, xs, [], j, i, rfl, runs_pure.2 ⟨rfl, rfl⟩, head⟩
    · obtain ⟨before, x', after, zs, i₁, i₂, rfl, hbefore, hx⟩ := ih hy
      exact ⟨x :: before, x', after, y' :: zs, i₁, i₂, rfl,
        runs_mapM.2 (.cons head (runs_mapM.1 hbefore)), hx⟩

theorem stops_mapM : (xs.mapM f).Stops j s k ↔
    ∃ before x after zs i, xs = before ++ x :: after ∧ (before.mapM f).Runs j zs i ∧
      (f x).Stops i s k := by
  induction xs generalizing j with
  | nil => simp
  | cons x xs ih =>
    simp only [List.mapM_cons, stops_bind, stops_pure, and_false, exists_false, or_false]
    constructor
    · rintro (hx | ⟨y, i, hy, hxs⟩)
      · exact ⟨[], x, xs, [], j, rfl, runs_pure.2 ⟨rfl, rfl⟩, hx⟩
      · obtain ⟨before, x', after, zs, i', rfl, hzs, hx'⟩ := ih.1 hxs
        refine ⟨x :: before, x', after, y :: zs, i', rfl, ?_, hx'⟩
        exact runs_mapM.2 (.cons hy (runs_mapM.1 hzs))
    · rintro ⟨before, x', after, zs, i, hxs, hzs, hx'⟩
      cases before with
      | nil =>
        obtain ⟨rfl, rfl⟩ := List.cons.inj hxs
        obtain ⟨-, rfl⟩ := runs_pure.1 hzs
        exact .inl hx'
      | cons b before =>
        obtain ⟨rfl, rfl⟩ := List.cons.inj hxs
        obtain ⟨y, i', hy, htail⟩ : ∃ y i', (f x).Runs j y i' ∧
            ∃ zs, (before.mapM f).Runs i' zs i := by
          cases runs_mapM.1 hzs with
          | cons hy htail => exact ⟨_, _, hy, _, runs_mapM.2 htail⟩
        obtain ⟨zs, hzs⟩ := htail
        exact .inr ⟨y, i', hy, ih.2 ⟨before, x', after, zs, i, rfl, hzs, hx'⟩⟩

end Lists

section Refining

/-- What `a` gives, `b` gives too, unless `a` runs out of steps. -/
def Refines (a b : Action α) : Prop :=
  ∀ j, (∃ k, a.Stops j .exhausted k) ∨ a.outcome j = b.outcome j

theorem Refines.refl (a : Action α) : Refines a a := fun _ => .inr rfl

theorem Refines.bind {b : Action α} {f g : α → Action β} (h : Refines a b)
    (hf : ∀ x, Refines (f x) (g x)) : Refines (a >>= f) (b >>= g) := by
  intro j
  obtain ⟨k, hk⟩ | hab := h j
  · exact .inl ⟨k, stops_bind.2 (.inl hk)⟩
  · obtain ⟨x, i, hx⟩ | ⟨s, i, hs⟩ := runs_or_stops a j
    · obtain ⟨k, hk⟩ | hfg := hf x i
      · exact .inl ⟨k, stops_bind.2 (.inr ⟨x, i, hx, hk⟩)⟩
      · right
        have hx' : b.outcome j = (.ok x, i) := hab ▸ hx
        rw [outcome_bind, outcome_bind, show a.outcome j = (.ok x, i) from hx, hx']
        exact hfg
    · right
      have hs' : b.outcome j = (.error s, i) := hab ▸ hs
      rw [outcome_bind, outcome_bind, show a.outcome j = (.error s, i) from hs, hs']

theorem Refines.within {b : Action α} (i : Include) (h : Refines a b) :
    Refines (within i a) (within i b) := by
  intro j
  obtain ⟨k, hk⟩ | hab := h j
  · exact .inl ⟨k, stops_within.2 (.inr ⟨rfl, hk⟩)⟩
  · right
    rw [outcome_within, outcome_within, hab]

theorem Refines.mapM {f g : α → Action β} (xs : List α) (h : ∀ x, Refines (f x) (g x)) :
    Refines (xs.mapM f) (xs.mapM g) := by
  induction xs with
  | nil => exact .refl _
  | cons x xs ih =>
    rw [List.mapM_cons, List.mapM_cons]
    exact (h x).bind fun _ => ih.bind fun _ => .refl _

theorem Refines.runs {b : Action α} (h : Refines a b) {x : α} (ha : a.Runs j x k) :
    b.Runs j x k := by
  obtain ⟨i, hi⟩ | hab := h j
  · exact absurd hi ha.not_stops
  · exact hab.symm.trans ha

end Refining

theorem forall_mem_of_runs_mapM {P : β → Prop} {f : α → Action β} {xs : List α} {ys : List β}
    (h : (xs.mapM f).Runs j ys k) (hf : ∀ x ∈ xs, ∀ j y k, (f x).Runs j y k → P y) :
    ∀ y ∈ ys, P y := by
  induction xs generalizing j ys k with
  | nil =>
    obtain ⟨rfl, -⟩ := runs_pure.1 h
    simp
  | cons x xs ih =>
    rw [List.mapM_cons] at h
    obtain ⟨y, i, hy, h⟩ := runs_bind.1 h
    obtain ⟨ys', i', hys, h⟩ := runs_bind.1 h
    obtain ⟨rfl, -⟩ := runs_pure.1 h
    refine List.forall_mem_cons.2 ⟨hf x List.mem_cons_self j y i hy, ?_⟩
    exact ih hys fun x hx => hf x (List.mem_cons_of_mem _ hx)

end Action
end Stencil
