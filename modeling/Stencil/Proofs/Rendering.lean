import Mathlib.Logic.Basic
import Stencil.Render

/-! Runs that change a session: how a run ends, what it leaves of the session also where it stops,
and that what every part of a run keeps is kept by the run. -/
namespace Stencil

namespace Session

/-- A session with something noted in its journal. -/
def noted (n : Notice) (l : Location) (s : Session) : Session :=
  { s with journal := s.journal.note n l }

/-- A session after the host was asked something. -/
def asked (call : Call) (s : Session) : Session := { s with journal := s.journal.call call }

/-- A session with other scopes. -/
def withScopes (scopes : Scopes) (s : Session) : Session := { s with scopes }

/-- A session in which a scope is opened for some bindings. -/
def opened (bindings : Scope) (s : Session) : Session :=
  s.withScopes (bindings.foldl (fun s p => s.define s.current p.1 p.2) s.scopes.push)

/-- A session in which the innermost scope is closed. -/
def closed (s : Session) : Session := s.withScopes s.scopes.pop

@[simp] theorem scopes_noted (n : Notice) (l : Location) (s : Session) :
    (s.noted n l).scopes = s.scopes := rfl

@[simp] theorem scopes_asked (call : Call) (s : Session) : (s.asked call).scopes = s.scopes := rfl

@[simp] theorem scopes_withScopes (scopes : Scopes) (s : Session) :
    (s.withScopes scopes).scopes = scopes := rfl

@[simp] theorem journal_noted (n : Notice) (l : Location) (s : Session) :
    (s.noted n l).journal = s.journal.note n l := rfl

@[simp] theorem journal_asked (call : Call) (s : Session) :
    (s.asked call).journal = s.journal.call call := rfl

@[simp] theorem journal_withScopes (scopes : Scopes) (s : Session) :
    (s.withScopes scopes).journal = s.journal := rfl

@[simp] theorem journal_opened (bindings : Scope) (s : Session) :
    (s.opened bindings).journal = s.journal := rfl

@[simp] theorem journal_closed (s : Session) : s.closed.journal = s.journal := rfl

@[simp] theorem scopes_closed (s : Session) : s.closed.scopes = s.scopes.pop := rfl

end Session

namespace Rendering

variable {α β : Type}

/-- How a run ends that begins with a session, and the session after it. -/
def outcome (a : Rendering α) (s : Session) : Except Stop α × Session := a.run.run s

/-- The session that a run leaves, whether it gives a result or stops. -/
def final (a : Rendering α) (s : Session) : Session := (a.outcome s).2

/-- The run gives `x`, and takes the session from `s` to `t`. -/
def Runs (a : Rendering α) (s : Session) (x : α) (t : Session) : Prop := a.outcome s = (.ok x, t)

/-- The run stops with `e`, and takes the session from `s` to `t`. -/
def Stops (a : Rendering α) (s : Session) (e : Stop) (t : Session) : Prop :=
  a.outcome s = (.error e, t)

/-- A result leaves a session as `P` says, and a stop is as `Q` says. -/
structure Ends (P : Session → Prop) (Q : Stop → Session → Prop) (a : Rendering α) (s : Session) :
    Prop where
  runs : ∀ {x : α} {t : Session}, a.Runs s x t → P t
  stops : ∀ {e : Stop} {t : Session}, a.Stops s e t → Q e t

section Outcomes

variable {a : Rendering α} {s t : Session} {x : α}

@[simp] theorem outcome_pure (x : α) (s : Session) :
    outcome (pure x : Rendering α) s = (.ok x, s) := rfl

@[simp] theorem outcome_throw (e : Stop) (s : Session) :
    outcome (throw e : Rendering α) s = (.error e, s) := rfl

@[simp] theorem outcome_fail (cause : RenderCause) (l : Location) (s : Session) :
    outcome (fail cause l : Rendering α) s = (.error (.failed ⟨[], .render cause, l⟩), s) := rfl

@[simp] theorem outcome_note (n : Notice) (l : Location) (s : Session) :
    outcome (note n l) s = (.ok (), s.noted n l) := rfl

@[simp] theorem outcome_call (call : Call) (s : Session) :
    outcome (Rendering.call call) s = (.ok (), s.asked call) := rfl

@[simp] theorem outcome_answers (host : Host) (s : Session) :
    outcome (answers host) s = (.ok (host.answers s.journal.calls), s) := rfl

@[simp] theorem outcome_scopes (s : Session) : outcome scopes s = (.ok s.scopes, s) := rfl

@[simp] theorem outcome_onScopes (f : Scopes → Scopes) (s : Session) :
    outcome (onScopes f) s = (.ok (), s.withScopes (f s.scopes)) := rfl

@[simp] theorem outcome_define (name : Text) (b : Binding) (s : Session) :
    outcome (define name b) s =
      (.ok (), s.withScopes (s.scopes.define s.scopes.current name b)) := rfl

theorem outcome_bind (a : Rendering α) (f : α → Rendering β) (s : Session) :
    outcome (a >>= f) s =
      match outcome a s with
      | (.ok x, t) => outcome (f x) t
      | (.error e, t) => (.error e, t) := by
  unfold outcome
  rw [ExceptT.run_bind, StateT.run_bind]
  match StateT.run a.run s with
  | (.ok x, t) => rfl
  | (.error e, t) => rfl

theorem outcome_inScope (bindings : Scope) (a : Rendering α) (s : Session) :
    outcome (inScope bindings a) s =
      ((a.outcome (s.opened bindings)).1, (a.final (s.opened bindings)).closed) := by
  unfold inScope
  rw [outcome_bind, outcome_onScopes]
  rfl

theorem final_inScope (bindings : Scope) (a : Rendering α) (s : Session) :
    final (inScope bindings a) s = (a.final (s.opened bindings)).closed :=
  congrArg Prod.snd (outcome_inScope bindings a s)

@[simp] theorem runs_pure {y : α} : Runs (pure x : Rendering α) s y t ↔ y = x ∧ t = s := by
  simp [Runs, eq_comm]

@[simp] theorem runs_throw {e : Stop} : ¬ Runs (throw e : Rendering α) s x t := by
  simp [Runs]

@[simp] theorem runs_fail {cause : RenderCause} {l : Location} :
    ¬ Runs (fail cause l : Rendering α) s x t := runs_throw

@[simp] theorem runs_scopes {y : Scopes} : Runs scopes s y t ↔ y = s.scopes ∧ t = s := by
  simp [Runs, eq_comm]

theorem runs_bind {f : α → Rendering β} {y : β} :
    (a >>= f).Runs s y t ↔ ∃ x i, a.Runs s x i ∧ (f x).Runs i y t := by
  unfold Runs
  rw [outcome_bind]
  match a.outcome s with
  | (.ok x, i) => simp [and_assoc]
  | (.error e, i) => simp

theorem stops_bind {f : α → Rendering β} {e : Stop} :
    (a >>= f).Stops s e t ↔ a.Stops s e t ∨ ∃ x i, a.Runs s x i ∧ (f x).Stops i e t := by
  unfold Stops Runs
  rw [outcome_bind]
  match a.outcome s with
  | (.ok x, i) => simp [and_assoc]
  | (.error e, i) => simp

theorem Runs.unique {y : α} {i : Session} (h : a.Runs s x t) (h' : a.Runs s y i) :
    x = y ∧ t = i := by
  simpa [Runs] using h.symm.trans h'

theorem runs_mapM_snoc {f : α → Rendering β} {xs : List α} {ys : List β} {y : β} {i : Session}
    (h : (xs.mapM f).Runs s ys t) (hx : (f x).Runs t y i) :
    ((xs ++ [x]).mapM f).Runs s (ys ++ [y]) i := by
  rw [List.mapM_append]
  refine runs_bind.2 ⟨ys, t, h, runs_bind.2 ⟨[y], i, ?_, runs_pure.2 ⟨rfl, rfl⟩⟩⟩
  rw [List.mapM_cons]
  exact runs_bind.2 ⟨y, i, hx, runs_pure.2 ⟨rfl, rfl⟩⟩

end Outcomes

section Endings

variable {P : Session → Prop} {Q : Stop → Session → Prop} {a : Rendering α} {s t : Session}

theorem Ends.of_runs {x : α} (h : a.Runs s x t) (ht : P t) : Ends P Q a s where
  runs h' := (h.unique h').2 ▸ ht
  stops h' := absurd (Prod.mk.inj (h.symm.trans h')).1 nofun

theorem Ends.of_stops {e : Stop} (h : a.Stops s e t) (ht : Q e t) : Ends P Q a s where
  runs h' := absurd (Prod.mk.inj (h.symm.trans h')).1 nofun
  stops h' := by
    obtain ⟨he, rfl⟩ := Prod.mk.inj (h.symm.trans h')
    exact Except.error.inj he ▸ ht

theorem ends_iff_final : Ends P (fun _ => P) a s ↔ P (a.final s) := by
  have hfinal : ∀ {r : Except Stop α} {t : Session}, a.outcome s = (r, t) → a.final s = t :=
    fun h => congrArg Prod.snd h
  refine ⟨fun h => ?_, fun h => ⟨fun hr => hfinal hr ▸ h, fun hr => hfinal hr ▸ h⟩⟩
  match hr : a.outcome s with
  | (.ok x, t) => exact hfinal hr ▸ h.runs hr
  | (.error e, t) => exact hfinal hr ▸ h.stops hr

theorem Ends.bind {R : Session → Prop} {f : α → Rendering β} (h : Ends R Q a s)
    (hf : ∀ x t, a.Runs s x t → R t → Ends P Q (f x) t) : Ends P Q (a >>= f) s where
  runs h' := by
    obtain ⟨x, i, hx, hrest⟩ := runs_bind.1 h'
    exact (hf x i hx (h.runs hx)).runs hrest
  stops h' := by
    obtain hstop | ⟨x, i, hx, hrest⟩ := stops_bind.1 h'
    · exact h.stops hstop
    · exact (hf x i hx (h.runs hx)).stops hrest

theorem Ends.mapM {f : α → Rendering β} {xs : List α} (h : P s)
    (hf : ∀ before x after ys t, xs = before ++ x :: after → (before.mapM f).Runs s ys t → P t →
      Ends P Q (f x) t) : Ends P Q (xs.mapM f) s := by
  suffices rest : ∀ done ys t, (done.mapM f).Runs s ys t → P t → ∀ todo, xs = done ++ todo →
      Ends P Q (todo.mapM f) t from rest [] [] s (runs_pure.2 ⟨rfl, rfl⟩) h xs rfl
  intro done ys t hdone ht todo
  induction todo generalizing done ys t with
  | nil => exact fun _ => .of_runs rfl ht
  | cons x todo ih =>
    intro hxs
    rw [List.mapM_cons]
    refine (hf done x todo ys t hxs hdone ht).bind fun y i hy hi => ?_
    have hnext := runs_mapM_snoc hdone hy
    have hrest := ih (done ++ [x]) (ys ++ [y]) i hnext hi (by simpa using hxs)
    exact hrest.bind fun ys i _ hi => .of_runs rfl hi

/-- A run in a scope of its own ends as it does there. -/
theorem Ends.inScope {bindings : Scope}
    (h : Ends (fun t => P t.closed) (fun e t => Q e t.closed) a (s.opened bindings)) :
    Ends P Q (inScope bindings a) s := by
  have houtcome := outcome_inScope bindings a s
  unfold final at houtcome
  match hr : a.outcome (s.opened bindings) with
  | (.ok x, t) =>
    rw [hr] at houtcome
    exact .of_runs houtcome (h.runs hr)
  | (.error e, t) =>
    rw [hr] at houtcome
    exact .of_stops houtcome (h.stops hr)

end Endings

end Rendering
end Stencil
