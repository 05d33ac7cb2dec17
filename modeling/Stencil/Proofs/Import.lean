import Stencil.Import
import Stencil.Proofs.Configuration

/-! How an import is resolved, in two steps: what it is bound for, which only its gates and its own
text decide, and how its content is admitted, which the host and the digest decide. -/
namespace Stencil

/-- The gate before content of an origin. -/
def Origin.gate? : Origin → Option Feature
  | .package => none
  | .net => some .net
  | .files => some .files

/-- What an import is bound for where all gates on its way are open. -/
structure Aim where
  target : Text
  wanted : Text
  overrides : Entries Text Text

/-- Content to be compiled, its configuration, and the keys of what is being imported, its own
last. -/
structure Task where
  content : Text
  config : Config
  chain : List Text

namespace Config

variable (c : Config) (target : Text)

/-- The key under which the content of a target is entered. -/
def keyOf : Text :=
  if Origin.ofTarget target = .net then target else importKey c.filePath target

/-- The directory of the content of a target, for content from the net that of its importer. -/
def directoryOf : Text :=
  if Origin.ofTarget target = .net then c.filePath else Path.directory (c.keyOf target)

end Config

namespace Use

open Stencil.Action

variable (host : Host) (c : Config) (u : Use)

/-- What an import is bound for, unless it is left out. -/
def aim : Action (Option Aim) := do
  if !c.enabled .imports then
    note (.importSkipped .imports) u.location
    return none
  let some target ← u.targetText? host c | return none
  let wanted ← u.wantedHash
  let overrides ← u.overrides
  match (Origin.ofTarget target).gate? with
  | none =>
    note (.packageSkipped target) u.location
    pure none
  | some gate =>
    if c.enabled gate then pure (some ⟨target, wanted, overrides⟩)
    else do
      note (.importSkipped gate) u.location
      pure none

/-- Asks the host for the content of a target. -/
def load (target : Text) : Action Bytes :=
  if Origin.ofTarget target = .net then do
    let now ← answers host
    call (.fetch target)
    match now.fetch target with
    | .ok bytes => pure bytes
    | .error e => fail (.importing (.fetch target e.message)) u.location
  else do
    let key := c.keyOf target
    let found := (← answers host).isFile key
    call (.probe key found)
    if !found then fail (.importing (.fileNotFound key)) u.location
    let now ← answers host
    call (.read key)
    match now.read key with
    | .ok bytes => pure bytes
    | .error e => fail (.importing (.unreadable key e)) u.location

/-- Fetches or reads what an import is bound for, and checks and decodes it. -/
def enter (chain : List Text) (a : Aim) : Action Task := do
  u.checkCycle chain (c.keyOf a.target)
  let bytes ← u.load host c a.target
  u.checkHash host a.target a.wanted bytes
  let inner := c.forImport a.target (c.directoryOf a.target) a.overrides
  let content ← u.decodeContent a.target inner.encoding bytes
  note (.importing a.target !a.overrides.isEmpty) u.location
  pure ⟨content, inner, chain ++ [c.keyOf a.target]⟩

variable {host c u}

theorem find_of_gate?_eq_none {target : Text} (chain : List Text)
    (h : (Origin.ofTarget target).gate? = none) :
    u.find host c chain target = (do
      note (.packageSkipped target) u.location
      pure none) := by
  unfold find
  cases ho : Origin.ofTarget target with
  | package => rfl
  | net => simp [ho, Origin.gate?] at h
  | files => simp [ho, Origin.gate?] at h

theorem find_of_closed {target : Text} {gate : Feature} (chain : List Text)
    (h : (Origin.ofTarget target).gate? = some gate) (hc : c.enabled gate = false) :
    u.find host c chain target = (do
      note (.importSkipped gate) u.location
      pure none) := by
  unfold find
  cases ho : Origin.ofTarget target with
  | package => simp [ho, Origin.gate?] at h
  | net =>
    obtain rfl : Feature.net = gate := by simpa [ho, Origin.gate?] using h
    simp [hc]
  | files =>
    obtain rfl : Feature.files = gate := by simpa [ho, Origin.gate?] using h
    simp [hc]

theorem find_of_open {target : Text} {gate : Feature} (chain : List Text)
    (h : (Origin.ofTarget target).gate? = some gate) (hc : c.enabled gate = true) :
    u.find host c chain target = (do
      u.checkCycle chain (c.keyOf target)
      let bytes ← u.load host c target
      pure (some ⟨bytes, c.keyOf target, c.directoryOf target⟩)) := by
  unfold find load
  cases ho : Origin.ofTarget target with
  | package => simp [ho, Origin.gate?] at h
  | net =>
    obtain rfl : Feature.net = gate := by simpa [ho, Origin.gate?] using h
    have hkey : c.keyOf target = target := by simp [Config.keyOf, ho]
    have hdirectory : c.directoryOf target = c.filePath := by simp [Config.directoryOf, ho]
    simp only [hc, if_true, hkey, hdirectory, bind_assoc]
    refine bind_congr fun _ => bind_congr fun now => bind_congr fun _ => ?_
    cases now.fetch target with
    | ok bytes => simp
    | error e => rfl
  | files =>
    obtain rfl : Feature.files = gate := by simpa [ho, Origin.gate?] using h
    have hkey : c.keyOf target = importKey c.filePath target := by simp [Config.keyOf, ho]
    have hdirectory : c.directoryOf target = Path.directory (importKey c.filePath target) := by
      simp [Config.directoryOf, ho, hkey]
    simp only [hc, if_true, hkey, hdirectory, bind_assoc, reduceCtorEq, if_false]
    refine bind_congr fun _ => bind_congr fun now => bind_congr fun _ => ?_
    cases now.isFile (importKey c.filePath target) with
    | false => rfl
    | true =>
      simp only [Bool.not_true, Bool.false_eq_true, if_false, bind_assoc]
      refine bind_congr fun later => bind_congr fun _ => ?_
      cases later.read (importKey c.filePath target) with
      | ok bytes => simp
      | error e => rfl

/-- An import is resolved by admitting what it is bound for, and compiling that. -/
theorem resolve_eq (nested : Text → Config → List Text → Action (List Node))
    (chain : List Text) :
    u.resolve host c nested chain = (do
      let some a ← u.aim host c | return []
      let t ← u.enter host c chain a
      within ⟨a.target, u.location⟩ (nested t.content t.config t.chain)) := by
  unfold resolve aim enter
  cases c.enabled .imports with
  | false => simp
  | true =>
    simp only [Bool.not_true, Bool.false_eq_true, if_false, bind_assoc, pure_bind]
    refine bind_congr fun target? => ?_
    cases target? with
    | none => simp
    | some target =>
      simp only [bind_assoc]
      refine bind_congr fun wanted => bind_congr fun overrides => ?_
      cases hgate : (Origin.ofTarget target).gate? with
      | none => simp [find_of_gate?_eq_none chain hgate]
      | some gate =>
        cases hc : c.enabled gate with
        | false => simp [find_of_closed chain hgate hc, hc]
        | true => simp [find_of_open chain hgate hc, hc]

end Use

/-- The warnings that a run has recorded. -/
def Journal.warnings (j : Journal) : List Diagnostic := Diagnostic.warnings j.diagnostics

theorem Journal.warnings_note_info {n : Notice} (l : Location) (j : Journal)
    (h : n.severity = .info) : (j.note n l).warnings = j.warnings := by
  simp [warnings, note, Diagnostic.warnings, Notice.diagnostic, h]

theorem Journal.warnings_note_warning {n : Notice} (l : Location) (j : Journal)
    (h : n.severity = .warning) : (j.note n l).warnings = j.warnings ++ [n.diagnostic l] := by
  simp [warnings, note, Diagnostic.warnings, Notice.diagnostic, h]

namespace Use

open Stencil.Action

variable (host : Host) (c : Config) (u : Use)

/-- What the target of an import says. -/
def says? : Option Text :=
  match u.target with
  | .mk (.expression source) _ => (host.evaluate source).toOption.map Text.trim
  | n => n.text?.map Text.trim

/-- The digest that an import wants, empty where it has no hash. -/
def wanted? : Option Text :=
  match u.hash with
  | none => some []
  | some n => n.text?.map Text.trim

/-- The settings that an import makes. A flag reads as yes. -/
def settings : Entries Text Text :=
  (u.params.elim [] Params.entries).map fun (key, value) =>
    (key, value.elim Setting.yes fun n => n.text?.getD [])

/-- The value that an import gives a setting. -/
def setting? (key : Text) : Option Text := u.settings.last? key

variable {host c u} {j k : Journal}

theorem runs_targetText? {target? : Option Text} (h : (u.targetText? host c).Runs j target? k) :
    (∃ target, target? = some target ∧ u.says? host = some target ∧ target ≠ [] ∧
      (∀ source, u.target.form = .expression source → c.enabled .eval = true) ∧
      k.warnings = j.warnings) ∨
    target? = none ∧ (∃ source, u.target.form = .expression source) ∧ c.enabled .eval = false ∧
      k = j.note (.importSkipped .eval) u.location := by
  unfold targetText? at h
  dsimp only at h
  split at h
  · next source l htarget =>
    split at h
    · next hopen =>
      obtain ⟨_, i, hcall, h⟩ := runs_bind.1 h
      obtain rfl := runs_call.1 hcall
      cases hvalue : host.evaluate source with
      | error e => simp [hvalue, Except.toOption] at h
      | ok text =>
        simp only [hvalue, Except.toOption, Option.map_some, pure_bind] at h
        split at h
        · exact absurd h runs_fail
        · next hne =>
          obtain ⟨rfl, rfl⟩ := runs_pure.1 h
          refine .inl ⟨_, rfl, ?_, by simpa using hne, fun _ _ => hopen, rfl⟩
          simp [says?, htarget, hvalue, Except.toOption]
    · next hclosed =>
      obtain ⟨_, i, hnote, h⟩ := runs_bind.1 h
      obtain rfl := runs_note.1 hnote
      obtain ⟨rfl, rfl⟩ := runs_pure.1 h
      exact .inr ⟨rfl, ⟨source, by rw [htarget]; rfl⟩, by simpa using hclosed, rfl⟩
  · next n hn =>
    cases htext : u.target.text? with
    | none => simp [htext] at h
    | some text =>
      simp only [htext, Option.map_some, pure_bind] at h
      split at h
      · exact absurd h runs_fail
      · next hne =>
        obtain ⟨rfl, rfl⟩ := runs_pure.1 h
        have hform : ∀ source, u.target.form ≠ .expression source := by
          intro source hsource
          cases htarget : u.target with
          | mk form l =>
            rw [htarget] at hsource
            exact hn source l (htarget.trans (congrArg (Node.mk · l) hsource))
        refine .inl ⟨_, rfl, ?_, by simpa using hne, fun _ h => absurd h (hform _), rfl⟩
        unfold says?
        split
        · next source l htarget => exact absurd htarget (hn source l)
        · simp [htext]

theorem runs_wantedHash {wanted : Text} :
    u.wantedHash.Runs j wanted k ↔ u.wanted? = some wanted ∧ k = j := by
  unfold wantedHash wanted?
  cases u.hash with
  | none => simp [eq_comm]
  | some n => cases htext : n.text? <;> simp [htext, eq_comm]

theorem override_eq (entry : Text × Option Node) : u.override entry =
    (if Setting.known entry.1 then pure () else note (.unknownOverride entry.1) u.location) >>=
      fun _ => entry.2.elim (pure (entry.1, Setting.yes)) fun n =>
        n.text?.elim (fail (.importing (.invalidOverride entry.1)) u.location) fun t =>
          pure (entry.1, t) := by
  obtain ⟨key, value⟩ := entry
  unfold override
  cases hknown : Setting.known key with
  | true =>
    cases value with
    | none => simp [hknown]
    | some n => cases htext : n.text? <;> simp [hknown, htext]
  | false =>
    cases value with
    | none => simp [hknown]
    | some n => cases htext : n.text? <;> simp [hknown, htext]

theorem runs_override {entry : Text × Option Node} {setting : Text × Text}
    (h : (u.override entry).Runs j setting k) :
    setting = (entry.1, entry.2.elim Setting.yes fun n => n.text?.getD []) ∧
      k.warnings = j.warnings := by
  rw [override_eq] at h
  obtain ⟨key, value⟩ := entry
  obtain ⟨_, i, hnote, h₁⟩ := runs_bind.1 h
  have hw : i.warnings = j.warnings := by
    split at hnote
    · rw [(runs_pure.1 hnote).2]
    · rw [runs_note.1 hnote]
      exact Journal.warnings_note_info _ _ rfl
  cases value with
  | none =>
    obtain ⟨rfl, rfl⟩ := runs_pure.1 h₁
    exact ⟨rfl, hw⟩
  | some n =>
    cases htext : n.text? with
    | none => simp [htext] at h₁
    | some t =>
      simp only [htext, Option.elim_some, runs_pure] at h₁
      obtain ⟨rfl, rfl⟩ := h₁
      exact ⟨by simp [htext], hw⟩

theorem runs_overrides {made : Entries Text Text} (h : u.overrides.Runs j made k) :
    made = u.settings ∧ k.warnings = j.warnings := by
  unfold overrides at h
  unfold settings
  rw [runs_mapM] at h
  generalize u.params.elim [] Params.entries = entries at h ⊢
  induction h with
  | nil j => exact ⟨rfl, rfl⟩
  | cons head _ ih =>
    obtain ⟨rfl, hfirst⟩ := runs_override head
    obtain ⟨rfl, hrest⟩ := ih
    exact ⟨rfl, hrest.trans hfirst⟩

/-- Why an import is left out, with the notice that says so. -/
inductive Skips (host : Host) (c : Config) (u : Use) : Notice → Prop where
  | imports (hclosed : c.enabled .imports = false) : Skips host c u (.importSkipped .imports)
  | eval {source : Text} (himports : c.enabled .imports = true)
      (htarget : u.target.form = .expression source) (hclosed : c.enabled .eval = false) :
      Skips host c u (.importSkipped .eval)
  | package {target : Text} (himports : c.enabled .imports = true)
      (htarget : u.says? host = some target) (horigin : Origin.ofTarget target = .package) :
      Skips host c u (.packageSkipped target)
  | closed {target : Text} {gate : Feature} (himports : c.enabled .imports = true)
      (htarget : u.says? host = some target)
      (hgate : (Origin.ofTarget target).gate? = some gate) (hclosed : c.enabled gate = false) :
      Skips host c u (.importSkipped gate)

/-- An import that is left out is warned of once. -/
theorem runs_aim_none (h : (u.aim host c).Runs j none k) :
    ∃ n, u.Skips host c n ∧ k.warnings = j.warnings ++ [n.diagnostic u.location] := by
  unfold aim at h
  split at h
  · next himports =>
    obtain ⟨_, i, hnote, h⟩ := runs_bind.1 h
    obtain rfl := runs_note.1 hnote
    obtain ⟨-, rfl⟩ := runs_pure.1 h
    exact ⟨_, .imports (by simpa using himports), Journal.warnings_note_warning _ _ rfl⟩
  next himports =>
  replace himports : c.enabled .imports = true := by simpa using himports
  obtain ⟨target?, i, htarget, h₁⟩ := runs_bind.1 h
  obtain ⟨target, rfl, hsays, -, -, hw⟩ | ⟨rfl, ⟨source, hsource⟩, hclosed, rfl⟩ :=
    runs_targetText? htarget
  · obtain ⟨wanted, i₁, hwanted, h₂⟩ := runs_bind.1 h₁
    obtain ⟨-, rfl⟩ := runs_wantedHash.1 hwanted
    obtain ⟨made, i₂, hmade, h₃⟩ := runs_bind.1 h₂
    obtain ⟨rfl, hw'⟩ := runs_overrides hmade
    rw [← hw, ← hw']
    split at h₃
    · next hgate =>
      obtain ⟨_, i₃, hnote, h₄⟩ := runs_bind.1 h₃
      obtain rfl := runs_note.1 hnote
      obtain ⟨-, rfl⟩ := runs_pure.1 h₄
      have horigin : Origin.ofTarget target = .package := by
        cases ho : Origin.ofTarget target <;> simp [ho, Origin.gate?] at hgate
        rfl
      exact ⟨_, .package himports hsays horigin, Journal.warnings_note_warning _ _ rfl⟩
    · next gate hgate =>
      split at h₃
      · cases (runs_pure.1 h₃).1
      · next hclosed =>
        obtain ⟨_, i₃, hnote, h₄⟩ := runs_bind.1 h₃
        obtain rfl := runs_note.1 hnote
        obtain ⟨-, rfl⟩ := runs_pure.1 h₄
        refine ⟨_, .closed himports hsays hgate (by simpa using hclosed), ?_⟩
        exact Journal.warnings_note_warning _ _ rfl
  · obtain ⟨-, rfl⟩ := runs_pure.1 h₁
    exact ⟨_, .eval himports hsource hclosed, Journal.warnings_note_warning _ _ rfl⟩

/-- What an import is bound for, and that no gate on the way there is closed. -/
structure BoundFor (host : Host) (c : Config) (u : Use) (a : Aim) : Prop where
  imports : c.enabled .imports = true
  eval : ∀ source, u.target.form = .expression source → c.enabled .eval = true
  target : u.says? host = some a.target
  overrides : a.overrides = u.settings
  gate : ∃ gate, (Origin.ofTarget a.target).gate? = some gate ∧ c.enabled gate = true

theorem BoundFor.not_skips {a : Aim} {n : Notice} (h : u.BoundFor host c a) :
    ¬ u.Skips host c n := by
  have htarget : ∀ {target}, u.says? host = some target → target = a.target :=
    fun hsaid => Option.some.inj (hsaid.symm.trans h.target)
  obtain ⟨gate, hgate, hopen⟩ := h.gate
  rintro (hclosed | ⟨-, hform, hclosed⟩ | ⟨-, hsays, horigin⟩ | ⟨-, hsays, hgate', hclosed⟩)
  · simp [h.imports] at hclosed
  · simp [h.eval _ hform] at hclosed
  · rw [htarget hsays] at horigin
    simp [horigin, Origin.gate?] at hgate
  · rw [htarget hsays, hgate] at hgate'
    obtain rfl := Option.some.inj hgate'
    simp [hopen] at hclosed

theorem runs_aim_steps {a : Aim} (h : (u.aim host c).Runs j (some a) k) :
    c.enabled .imports = true ∧
      (∃ gate, (Origin.ofTarget a.target).gate? = some gate ∧ c.enabled gate = true) ∧
      ∃ i, (u.targetText? host c).Runs j (some a.target) i ∧ u.wanted? = some a.wanted ∧
        u.overrides.Runs i a.overrides k := by
  unfold aim at h
  split at h
  · obtain ⟨_, i, -, h⟩ := runs_bind.1 h
    cases (runs_pure.1 h).1
  next himports =>
  obtain ⟨target?, i, htarget, h₁⟩ := runs_bind.1 h
  split at h₁
  · next target =>
    obtain ⟨wanted, i₁, hhash, h₂⟩ := runs_bind.1 h₁
    obtain ⟨hwanted, rfl⟩ := runs_wantedHash.1 hhash
    obtain ⟨made, i₂, hmade, h₃⟩ := runs_bind.1 h₂
    split at h₃
    · obtain ⟨_, i₃, -, h₄⟩ := runs_bind.1 h₃
      cases (runs_pure.1 h₄).1
    · next gate hgate =>
      split at h₃
      · next hopen =>
        obtain ⟨ha, rfl⟩ := runs_pure.1 h₃
        obtain rfl := Option.some.inj ha
        exact ⟨by simpa using himports, ⟨gate, hgate, hopen⟩, i₁, htarget, hwanted, hmade⟩
      · obtain ⟨_, i₃, -, h₄⟩ := runs_bind.1 h₃
        cases (runs_pure.1 h₄).1
  · cases (runs_pure.1 h₁).1

theorem runs_aim_some {a : Aim} (h : (u.aim host c).Runs j (some a) k) :
    u.BoundFor host c a ∧ k.warnings = j.warnings := by
  obtain ⟨himports, hgate, i, htarget, -, hmade⟩ := runs_aim_steps h
  obtain ⟨target, heq, hsays, -, heval, hw⟩ | ⟨⟨⟩, -⟩ := runs_targetText? htarget
  obtain rfl := Option.some.inj heq
  obtain ⟨hmade, hw'⟩ := runs_overrides hmade
  exact ⟨⟨himports, heval, hsays, hmade, hgate⟩, hw'.trans hw⟩

@[simp] theorem runs_checkCycle {chain : List Text} {key : Text} {x : Unit} :
    (u.checkCycle chain key).Runs j x k ↔ key ∉ chain ∧ k = j := by
  unfold checkCycle
  split
  · next h => simp_all
  · next h => simp_all

theorem runs_enter {chain : List Text} {a : Aim} {t : Task}
    (h : (u.enter host c chain a).Runs j t k) :
    c.keyOf a.target ∉ chain ∧ (∃ bytes i, (u.load host c a.target).Runs j bytes i) ∧
      t.config = c.forImport a.target (c.directoryOf a.target) a.overrides ∧
      t.chain = chain ++ [c.keyOf a.target] := by
  obtain ⟨_, i, hcycle, h₁⟩ := runs_bind.1 h
  obtain ⟨hnot, rfl⟩ := runs_checkCycle.1 hcycle
  obtain ⟨bytes, i₁, hload, h₂⟩ := runs_bind.1 h₁
  obtain ⟨_, i₂, -, h₃⟩ := runs_bind.1 h₂
  obtain ⟨content, i₃, -, h₄⟩ := runs_bind.1 h₃
  obtain ⟨_, i₄, -, h₅⟩ := runs_bind.1 h₄
  obtain ⟨rfl, -⟩ := runs_pure.1 h₅
  exact ⟨hnot, ⟨bytes, i₁, hload⟩, rfl, rfl⟩

end Use
end Stencil
