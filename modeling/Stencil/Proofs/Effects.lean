import Stencil.Proofs.Import
import Stencil.Template

/-! What the steps of a compilation can do: nothing is ever taken out of the journal, each step asks
the host what the text of its import says, and each has failures of its own. -/
namespace Stencil

namespace Journal

/-- The second journal is the first with more notices, and more calls as `P` says. -/
def Grows (P : Call → Prop) (j k : Journal) : Prop :=
  j.diagnostics <+: k.diagnostics ∧ ∃ calls, k.calls = j.calls ++ calls ∧ ∀ call ∈ calls, P call

variable {P Q : Call → Prop} {i j k : Journal}

theorem Grows.refl (j : Journal) : Grows P j j :=
  ⟨List.prefix_rfl, [], (List.append_nil _).symm, nofun⟩

theorem Grows.trans (h : Grows P i j) (h' : Grows P j k) : Grows P i k := by
  obtain ⟨hdiagnostics, calls, heq, hcalls⟩ := h
  obtain ⟨hdiagnostics', calls', heq', hcalls'⟩ := h'
  refine ⟨hdiagnostics.trans hdiagnostics', calls ++ calls', ?_, fun call hcall => ?_⟩
  · rw [heq', heq, List.append_assoc]
  · exact (List.mem_append.1 hcall).elim (hcalls call) (hcalls' call)

theorem Grows.mono (h : Grows P j k) (hPQ : ∀ call, P call → Q call) : Grows Q j k := by
  obtain ⟨hdiagnostics, calls, heq, hcalls⟩ := h
  exact ⟨hdiagnostics, calls, heq, fun call hcall => hPQ call (hcalls call hcall)⟩

theorem grows_note (n : Notice) (l : Location) (j : Journal) : Grows P j (j.note n l) :=
  ⟨List.prefix_append _ _, [], (List.append_nil _).symm, nofun⟩

theorem grows_call {call : Call} (h : P call) (j : Journal) : Grows P j (j.call call) :=
  ⟨List.prefix_rfl, [call], rfl, fun _ hcall => List.mem_singleton.1 hcall ▸ h⟩

theorem Grows.prefix_calls (h : Grows P j k) : j.calls <+: k.calls := by
  obtain ⟨-, calls, heq, -⟩ := h
  exact ⟨calls, heq.symm⟩

theorem Grows.warnings_subset (h : Grows P j k) : j.warnings ⊆ k.warnings := by
  obtain ⟨⟨more, heq⟩, -⟩ := h
  unfold warnings Diagnostic.warnings
  rw [← heq, List.filter_append]
  exact List.subset_append_left _ _

end Journal

namespace Action

variable {α β : Type} {P Q : Call → Prop} {a : Action α} {j k : Journal}

/-- The journal that a run leaves, whether it gives a result or fails. -/
def final (a : Action α) (j : Journal) : Journal := (a.outcome j).2

/-- An action only adds to the journal; it asks as `P` says and fails as `F` says. -/
structure Obeys (P : Call → Prop) (F : Stop → Prop) (a : Action α) : Prop where
  grows : ∀ j, Journal.Grows P j (a.final j)
  fails : ∀ {j s k}, a.Stops j s k → F s

theorem Runs.final_eq {x : α} (h : a.Runs j x k) : a.final j = k := congrArg Prod.snd h

@[simp] theorem final_within (i : Include) (a : Action α) (j : Journal) :
    (within i a).final j = a.final j := by
  unfold final
  rw [outcome_within]
  match a.outcome j with
  | (.ok x, k) => rfl
  | (.error (.failed f), k) => rfl
  | (.error .exhausted, k) => rfl

theorem final_bind (a : Action α) (f : α → Action β) (j : Journal) :
    (∃ x i, a.Runs j x i ∧ (a >>= f).final j = (f x).final i) ∨
      (a >>= f).final j = a.final j := by
  unfold final Runs
  rw [outcome_bind]
  match a.outcome j with
  | (.ok x, i) => exact .inl ⟨x, i, rfl, rfl⟩
  | (.error s, i) => exact .inr rfl

section Obeying

variable {F G : Stop → Prop}

theorem Obeys.runs (h : Obeys P F a) {x : α} (ha : a.Runs j x k) : Journal.Grows P j k :=
  ha.final_eq ▸ h.grows j

theorem Obeys.mono (h : Obeys P F a) (hPQ : ∀ call, P call → Q call) (hFG : ∀ s, F s → G s) :
    Obeys Q G a :=
  ⟨fun j => (h.grows j).mono hPQ, fun hs => hFG _ (h.fails hs)⟩

theorem Obeys.pure {x : α} : Obeys P F (pure x : Action α) :=
  ⟨.refl, fun h => absurd h stops_pure⟩

theorem Obeys.throw {s : Stop} (h : F s) : Obeys P F (throw s : Action α) :=
  ⟨.refl, fun hs => (stops_throw.1 hs).1 ▸ h⟩

theorem Obeys.fail {cause : Cause} {l : Location} (h : F (.failed ⟨[], cause, l⟩)) :
    Obeys P F (fail cause l : Action α) := .throw h

theorem Obeys.note {n : Notice} {l : Location} : Obeys P F (note n l) :=
  ⟨Journal.grows_note n l, fun h => absurd h stops_note⟩

theorem Obeys.call {c : Call} (h : P c) : Obeys P F (call c) :=
  ⟨Journal.grows_call h, fun hs => absurd hs stops_call⟩

theorem Obeys.answers {host : Host} : Obeys P F (answers host) :=
  ⟨.refl, fun h => absurd h stops_answers⟩

theorem Obeys.bind {f : α → Action β} (h : Obeys P F a) (hf : ∀ x, Obeys P F (f x)) :
    Obeys P F (a >>= f) := by
  refine ⟨fun j => ?_, fun hs => ?_⟩
  · obtain ⟨x, i, hx, heq⟩ | heq := final_bind a f j
    · rw [heq]
      exact (h.runs hx).trans ((hf x).grows i)
    · rw [heq]
      exact h.grows j
  · obtain hs | ⟨x, i, -, hs⟩ := stops_bind.1 hs
    · exact h.fails hs
    · exact (hf x).fails hs

theorem Obeys.fail_bind {cause : Cause} {l : Location} {f : α → Action β}
    (h : F (.failed ⟨[], cause, l⟩)) : Obeys P F ((Action.fail cause l : Action α) >>= f) := by
  have hfail : (Action.fail cause l : Action α) >>= f = Action.fail cause l := ext fun j => by
    rw [outcome_bind, outcome_fail, outcome_fail]
  rw [hfail]
  exact .fail h

theorem Obeys.within {i : Include} (h : Obeys P F a) :
    Obeys P (fun _ => True) (within i a) :=
  ⟨fun j => final_within i a j ▸ h.grows j, fun _ => trivial⟩

theorem Obeys.mapM {f : α → Action β} (hf : ∀ x, Obeys P F (f x)) (xs : List α) :
    Obeys P F (xs.mapM f) := by
  induction xs with
  | nil => exact .pure
  | cons x xs ih =>
    rw [List.mapM_cons]
    exact (hf x).bind fun _ => ih.bind fun _ => .pure

theorem Obeys.foldlM {f : β → α → Action β} (hf : ∀ y x, Obeys P F (f y x)) (xs : List α) (y : β) :
    Obeys P F (xs.foldlM f y) := by
  induction xs generalizing y with
  | nil => exact .pure
  | cons x xs ih =>
    rw [List.foldlM_cons]
    exact (hf y x).bind ih

end Obeying

/-- In a run from `j`, the host is asked `call` when it was asked `past` before. -/
def Asks (a : Action α) (j : Journal) (past : List Call) (call : Call) : Prop :=
  j.calls <+: past ∧ past ++ [call] <+: (a.final j).calls

variable {past : List Call} {call : Call}

variable {F : Stop → Prop}

theorem Obeys.of_asks (h : Obeys P F a) (hasks : a.Asks j past call) : P call := by
  obtain ⟨-, calls, heq, hcalls⟩ := h.grows j
  obtain ⟨⟨more, rfl⟩, hpast⟩ := hasks
  rw [heq, List.append_assoc, List.prefix_append_right_inj] at hpast
  exact hcalls call (hpast.subset (List.mem_append_right _ List.mem_cons_self))

theorem not_asks_pure {x : α} : ¬ (pure x : Action α).Asks j past call :=
  Obeys.of_asks (P := fun _ => False) (F := fun _ => True) .pure

theorem not_asks_throw {s : Stop} : ¬ (throw s : Action α).Asks j past call :=
  Obeys.of_asks (P := fun _ => False) (F := fun _ => True) (.throw trivial)

/-- What is asked in a run is asked by its first part, or by the rest. -/
theorem asks_bind {f : α → Action β} (hf : ∀ x, Obeys P F (f x))
    (h : (a >>= f).Asks j past call) :
    a.Asks j past call ∨ ∃ x i, a.Runs j x i ∧ (f x).Asks i past call := by
  obtain ⟨hpast, hcall⟩ := h
  obtain ⟨x, i, hx, heq⟩ | heq := final_bind a f j
  · rw [heq] at hcall
    obtain hle | hle := List.prefix_or_prefix_of_prefix hcall ((hf x).grows i).prefix_calls
    · exact .inl ⟨hpast, hx.final_eq ▸ hle⟩
    · obtain hsame | hbefore := List.prefix_concat_iff.1 hle
      · exact .inl ⟨hpast, hx.final_eq ▸ hsame ▸ List.prefix_rfl⟩
      · exact .inr ⟨x, i, hx, hbefore, hcall⟩
  · exact .inl ⟨hpast, heq ▸ hcall⟩

@[simp] theorem asks_within {i : Include} :
    (within i a).Asks j past call ↔ a.Asks j past call := by
  unfold Asks
  rw [final_within]

theorem asks_mapM {f : α → Action β} {xs : List α} (hf : ∀ x, Obeys P F (f x))
    (h : (xs.mapM f).Asks j past call) :
    ∃ before x after ys i, xs = before ++ x :: after ∧ (before.mapM f).Runs j ys i ∧
      (f x).Asks i past call := by
  induction xs generalizing j with
  | nil => exact absurd h not_asks_pure
  | cons x xs ih =>
    rw [List.mapM_cons] at h
    have hrest : Obeys P F (xs.mapM f) := .mapM hf xs
    obtain hx | ⟨y, i, hy, h⟩ := asks_bind (fun _ => hrest.bind fun _ => .pure) h
    · exact ⟨[], x, xs, [], j, rfl, runs_pure.2 ⟨rfl, rfl⟩, hx⟩
    · obtain hxs | ⟨zs, i', -, hpure⟩ := asks_bind (P := P) (F := F) (fun _ => .pure) h
      · obtain ⟨before, x', after, zs, i', rfl, hzs, hx'⟩ := ih hxs
        refine ⟨x :: before, x', after, y :: zs, i', rfl, ?_, hx'⟩
        exact runs_mapM.2 (.cons hy (runs_mapM.1 hzs))
      · exact absurd hpure not_asks_pure

end Action

open Stencil.Action

variable {P : Call → Prop} {F : Stop → Prop} {host : Host} {c : Config} {u : Use}

namespace Use

/-- What is asked to learn what an import is bound for: the value of its target. -/
inductive Evaluates (c : Config) (u : Use) : Call → Prop where
  | intro {source : Text} (himports : c.enabled .imports = true) (heval : c.enabled .eval = true)
      (htarget : u.target.form = .expression source) : Evaluates c u (.evaluate source)

/-- What is asked for the content of a target. -/
inductive Seeks (c : Config) (target : Text) : Call → Prop where
  | fetch (horigin : Origin.ofTarget target = .net) : Seeks c target (.fetch target)
  | probe (found : Bool) (horigin : Origin.ofTarget target ≠ .net) :
      Seeks c target (.probe (c.keyOf target) found)
  | read (horigin : Origin.ofTarget target ≠ .net) : Seeks c target (.read (c.keyOf target))

/-- A failure of the import itself that is not about a cycle. -/
def Faults (u : Use) (s : Stop) : Prop :=
  ∃ cause, s = .failed ⟨[], .importing cause, u.location⟩ ∧ ∀ keys, cause ≠ .cycle keys

theorem Faults.ne_exhausted {s : Stop} (h : u.Faults s) : s ≠ .exhausted := by
  obtain ⟨cause, rfl, -⟩ := h
  intro heq
  cases heq

theorem obeys_fail {α : Type} {cause : ImportCause} (hcause : ∀ keys, cause ≠ .cycle keys) :
    Obeys P u.Faults (fail (.importing cause) u.location : Action α) :=
  .fail ⟨cause, rfl, hcause⟩

theorem obeys_targetText? (himports : c.enabled .imports = true) :
    Obeys (u.Evaluates c) u.Faults (u.targetText? host c) := by
  have hinvalid : Obeys (u.Evaluates c) u.Faults
      (fail (.importing .invalidTarget) u.location : Action (Option Text)) :=
    obeys_fail fun _ => nofun
  unfold targetText?
  dsimp only
  split
  · next source l htarget =>
    split
    · next heval =>
      refine .bind (.call (.intro himports heval (by rw [htarget]; rfl))) fun _ => ?_
      rw [pure_bind]
      split
      · split
        · exact hinvalid
        · exact .pure
      · exact hinvalid
    · exact .bind .note fun _ => .pure
  · rw [pure_bind]
    split
    · split
      · exact hinvalid
      · exact .pure
    · exact hinvalid

theorem obeys_wantedHash : Obeys P u.Faults u.wantedHash := by
  unfold wantedHash
  split
  · exact .pure
  · split
    · exact .pure
    · exact obeys_fail fun _ => nofun

theorem obeys_override (entry : Text × Option Node) : Obeys P u.Faults (u.override entry) := by
  rw [override_eq]
  obtain ⟨key, value⟩ := entry
  refine .bind ?_ fun _ => ?_
  · split
    · exact .pure
    · exact .note
  · cases value with
    | none => exact .pure
    | some n =>
      dsimp only [Option.elim_some]
      cases n.text? with
      | none => exact obeys_fail fun _ => nofun
      | some t => exact .pure

theorem obeys_aim : Obeys (u.Evaluates c) u.Faults (u.aim host c) := by
  have hskipped : ∀ n : Notice, Obeys (u.Evaluates c) u.Faults (do
      note n u.location
      pure none : Action (Option Aim)) := fun _ => .bind .note fun _ => .pure
  unfold aim
  split
  · exact hskipped _
  next himports =>
  refine .bind (obeys_targetText? (by simpa using himports)) fun target? => ?_
  cases target? with
  | none => exact .pure
  | some target =>
    refine .bind obeys_wantedHash fun wanted => ?_
    refine .bind (.mapM obeys_override _) fun made => ?_
    split
    · exact hskipped _
    · split
      · exact .pure
      · exact hskipped _

theorem obeys_load (target : Text) : Obeys (Seeks c target) u.Faults (u.load host c target) := by
  unfold load
  split
  · next horigin =>
    refine .bind .answers fun now => .bind (.call (.fetch horigin)) fun _ => ?_
    split
    · exact .pure
    · exact obeys_fail fun _ => nofun
  · next horigin =>
    refine .bind .answers fun now => .bind (.call (.probe _ horigin)) fun _ => ?_
    split
    · exact .fail_bind ⟨_, rfl, fun _ => nofun⟩
    · refine .bind .answers fun later => .bind (.call (.read horigin)) fun _ => ?_
      split
      · exact .pure
      · exact obeys_fail fun _ => nofun

theorem obeys_checkHash (target wanted : Text) (bytes : Bytes) :
    Obeys P u.Faults (u.checkHash host target wanted bytes) := by
  unfold checkHash
  dsimp only
  split
  · exact .pure
  · exact obeys_fail fun _ => nofun

theorem obeys_decodeContent (target encoding : Text) (bytes : Bytes) :
    Obeys P u.Faults (u.decodeContent target encoding bytes) := by
  unfold decodeContent
  split
  · exact .bind .note fun _ => .pure
  · split
    · exact .pure
    · exact obeys_fail fun _ => nofun

/-- Fetches or reads what an import is bound for and is not being imported yet. -/
def receive (host : Host) (c : Config) (u : Use) (chain : List Text) (a : Aim) : Action Task := do
  let bytes ← u.load host c a.target
  u.checkHash host a.target a.wanted bytes
  let inner := c.forImport a.target (c.directoryOf a.target) a.overrides
  let content ← u.decodeContent a.target inner.encoding bytes
  note (.importing a.target !a.overrides.isEmpty) u.location
  pure ⟨content, inner, chain ++ [c.keyOf a.target]⟩

theorem enter_eq (chain : List Text) (a : Aim) : u.enter host c chain a = (do
    u.checkCycle chain (c.keyOf a.target)
    u.receive host c chain a) := rfl

theorem obeys_receive (chain : List Text) (a : Aim) :
    Obeys (Seeks c a.target) u.Faults (u.receive host c chain a) :=
  .bind (obeys_load _) fun _ => .bind (obeys_checkHash _ _ _) fun _ =>
    .bind (obeys_decodeContent _ _ _) fun _ => .bind .note fun _ => .pure

theorem obeys_enter (chain : List Text) (a : Aim) :
    Obeys (Seeks c a.target) (fun _ => True) (u.enter host c chain a) := by
  have hcycle : Obeys (Seeks c a.target) (fun _ => True)
      (u.checkCycle chain (c.keyOf a.target)) := by
    unfold checkCycle
    split
    · exact .fail trivial
    · exact .pure
  rw [enter_eq]
  exact hcycle.bind fun _ => (obeys_receive chain a).mono (fun _ h => h) fun _ _ => trivial

theorem obeys_resolve {nested : Text → Config → List Text → Action (List Node)}
    (chain : List Text) (h : ∀ content c chain, Obeys (fun _ => True) (fun _ => True)
      (nested content c chain)) :
    Obeys (fun _ => True) (fun _ => True) (u.resolve host c nested chain) := by
  rw [resolve_eq]
  refine .bind (obeys_aim.mono (fun _ _ => trivial) fun _ _ => trivial) fun a? => ?_
  cases a? with
  | none => exact .pure
  | some a =>
    refine .bind ((obeys_enter _ a).mono (fun _ _ => trivial) fun _ _ => trivial) fun t => ?_
    exact .within (h t.content t.config t.chain)

end Use

/-- A failure that no import is the cause of, and that no import has passed on. -/
def Unreadable (s : Stop) : Prop :=
  ∃ cause l, s = .failed ⟨[], cause, l⟩ ∧ ∀ i, cause ≠ .importing i

theorem obeys_preprocess (source : Text) : Obeys P Unreadable (preprocess source c) := by
  have hentry : ∀ (l : Location) (c : Config) (entry : Text),
      Obeys P Unreadable (MetaBlock.applyEntry l c entry) := by
    intro l c entry
    unfold MetaBlock.applyEntry
    split
    · exact .fail ⟨_, l, rfl, fun _ => nofun⟩
    · exact .pure
    · dsimp only
      split
      · exact .pure
      · exact .bind .note fun _ => .pure
  unfold preprocess
  refine .bind (.foldlM (fun c block => .foldlM (hentry _) _ _) _ _) fun c => ?_
  dsimp only
  split
  · exact .bind .note fun _ => .pure
  · exact .pure

theorem obeys_inFile {κ α : Type} {cause : κ → Cause} (file : Text) (r : Except (Fault κ) α)
    (hcause : ∀ f i, cause f ≠ .importing i) : Obeys P Unreadable (inFile cause file r) := by
  cases r with
  | ok x => exact .pure
  | error f => exact .fail ⟨_, _, rfl, hcause f.cause⟩

theorem obeys_read (source : Text) : Obeys P Unreadable (read source c) :=
  .bind (obeys_preprocess source) fun _ =>
    .bind (obeys_inFile _ _ fun _ _ => nofun) fun _ =>
      .bind (obeys_inFile _ _ fun _ _ => nofun) fun _ => .pure

theorem not_asks_read {source : Text} {j : Journal} {past : List Call} {call : Call} :
    ¬ (read source c).Asks j past call := Obeys.of_asks (P := fun _ => False) (obeys_read source)

theorem obeys_resolveImports {nested : Text → Config → List Text → Action (List Node)}
    (chain : List Text) (program : List Node)
    (h : ∀ content c chain, Obeys (fun _ => True) (fun _ => True) (nested content c chain)) :
    Obeys (fun _ => True) (fun _ => True) (resolveImports host c nested chain program) :=
  .bind (.mapM (fun _ => Use.obeys_resolve _ h) _) fun _ => .pure

theorem obeys_compileImport (depth : Nat) (content : Text) (c : Config) (chain : List Text) :
    Obeys (fun _ => True) (fun _ => True) (compileImport host depth content c chain) := by
  induction depth generalizing content c chain with
  | zero => exact .throw trivial
  | succ depth ih =>
    refine .bind ((obeys_read content).mono (fun _ h => h) fun _ _ => trivial) fun p => ?_
    exact obeys_resolveImports chain p.1 ih

end Stencil
