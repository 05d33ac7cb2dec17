import Stencil.Proofs.Effects
import Stencil.Proofs.Extraction

/-! Which file is named where the settings of a template are read. It is the one that the blocks
before have left in force, though what is forced counts in the end. -/
namespace Stencil

namespace Action

variable {α β σ : Type} {R : Location → Prop} {a : Action α} {f : α → Action β}

/-- However a run from `j` on ends, all its notes are where `R` says. -/
def Notes (R : Location → Prop) (a : Action α) (j : Journal) : Prop :=
  ∃ noted, (a.final j).diagnostics = j.diagnostics ++ noted ∧ ∀ d ∈ noted, R d.location

theorem Notes.mono {S : Location → Prop} {j : Journal} (h : Notes R a j)
    (hRS : ∀ l, R l → S l) : Notes S a j := by
  obtain ⟨noted, heq, hnoted⟩ := h
  exact ⟨noted, heq, fun d hd => hRS _ (hnoted d hd)⟩

theorem Notes.bind {j : Journal} (h : Notes R a j)
    (hf : ∀ x k, a.Runs j x k → Notes R (f x) k) : Notes R (a >>= f) j := by
  obtain ⟨noted, heq, hnoted⟩ := h
  obtain ⟨x, i, hx, hfinal⟩ | hfinal := final_bind a f j
  · obtain ⟨later, heq', hlater⟩ := hf x i hx
    rw [hx.final_eq] at heq
    refine ⟨noted ++ later, by rw [hfinal, heq', heq, List.append_assoc], fun d hd => ?_⟩
    exact (List.mem_append.1 hd).elim (hnoted d) (hlater d)
  · exact ⟨noted, by rw [hfinal, heq], hnoted⟩

theorem Notes.pure (x : α) (j : Journal) : Notes R (pure x : Action α) j :=
  ⟨[], (List.append_nil _).symm, nofun⟩

theorem Notes.within {j : Journal} (h : Notes R a j) (i : Include) : Notes R (within i a) j := by
  unfold Notes
  rwa [final_within]

theorem Notes.mapM {f : α → Action β} {xs : List α} {j : Journal}
    (h : ∀ before x after ys i, xs = before ++ x :: after → (before.mapM f).Runs j ys i →
      Notes R (f x) i) : Notes R (xs.mapM f) j := by
  induction xs generalizing j with
  | nil => exact .pure _ _
  | cons x xs ih =>
    rw [List.mapM_cons]
    refine (h [] x xs [] j rfl (runs_pure.2 ⟨rfl, rfl⟩)).bind fun y i hy => ?_
    refine Notes.bind (ih fun before x' after ys i' heq hbefore => ?_) fun _ _ _ => .pure _ _
    exact h (x :: before) x' after (y :: ys) i' (heq ▸ rfl) (runs_mapM.2 (.cons hy
      (runs_mapM.1 hbefore)))

/-- All that an action notes, and its own failure, are where `R` says. -/
structure Reports (R : Location → Prop) (a : Action α) : Prop where
  notes : ∀ j, ∃ noted, (a.final j).diagnostics = j.diagnostics ++ noted ∧
    ∀ d ∈ noted, R d.location
  fails : ∀ {j s k}, a.Stops j s k → ∃ cause l, s = .failed ⟨[], cause, l⟩ ∧ R l

theorem Reports.notes_imp {S : Location → Prop} (h : Reports R a) (j : Journal)
    (hRS : ∀ l, R l → S l) : Notes S a j :=
  Notes.mono (h.notes j) hRS

theorem Reports.pure (x : α) : Reports R (pure x : Action α) :=
  ⟨fun _ => ⟨[], (List.append_nil _).symm, nofun⟩, fun h => absurd h stops_pure⟩

theorem Reports.fail (cause : Cause) {l : Location} (h : R l) :
    Reports R (fail cause l : Action α) :=
  ⟨fun _ => ⟨[], (List.append_nil _).symm, nofun⟩, fun hs => ⟨cause, l, (stops_fail.1 hs).1, h⟩⟩

theorem Reports.note (n : Notice) {l : Location} (h : R l) : Reports R (note n l) :=
  ⟨fun _ => ⟨[n.diagnostic l], rfl, fun _ hd => List.mem_singleton.1 hd ▸ h⟩,
    fun hs => absurd hs stops_note⟩

theorem Reports.bind (h : Reports R a) (hf : ∀ j x k, a.Runs j x k → Reports R (f x)) :
    Reports R (a >>= f) := by
  refine ⟨fun j => Notes.bind (h.notes j) fun x k hx => (hf j x k hx).notes k, fun hs => ?_⟩
  obtain hstop | ⟨x, i, hx, hstop⟩ := stops_bind.1 hs
  · exact h.fails hstop
  · exact (hf _ x i hx).fails hstop

theorem Reports.foldlM {f : σ → α → Action σ} (hf : ∀ s x, Reports R (f s x)) (xs : List α)
    (s : σ) : Reports R (xs.foldlM f s) := by
  induction xs generalizing s with
  | nil => exact .pure _
  | cons x xs ih =>
    rw [List.foldlM_cons]
    exact (hf s x).bind fun _ s' _ _ => ih s'

theorem Reports.mapM {f : α → Action β} (hf : ∀ x, Reports R (f x)) (xs : List α) :
    Reports R (xs.mapM f) := by
  induction xs with
  | nil => exact .pure _
  | cons x xs ih =>
    rw [List.mapM_cons]
    exact (hf x).bind fun _ _ _ _ => ih.bind fun _ _ _ _ => .pure _

theorem Reports.call (c : Call) : Reports R (call c) :=
  ⟨fun _ => ⟨[], (List.append_nil _).symm, nofun⟩, fun h => absurd h stops_call⟩

theorem Reports.answers (host : Host) : Reports R (answers host) :=
  ⟨fun _ => ⟨[], (List.append_nil _).symm, nofun⟩, fun h => absurd h stops_answers⟩

end Action

open Stencil.Action

namespace MetaBlock

variable {R : Location → Prop}

/-- What some blocks assign, in order. -/
def assigned (blocks : List (Position × Text)) : Entries Text Text :=
  blocks.flatMap fun block => (entries block.2).filterMap assignment?

/-- The file that is in force after some blocks, if it was `file` before them. -/
def fileAfter (file : Text) (blocks : List (Position × Text)) : Text :=
  ((assigned blocks).last? Setting.fileName).getD file

/-- Where reading blocks reports: at the start of one, in the file in force before it, or at the
start of the file in force at the end. -/
inductive ReportedIn (file : Text) (blocks : List (Position × Text)) : Location → Prop where
  | block {before after : List (Position × Text)} {block : Position × Text}
      (h : blocks = before ++ block :: after) :
      ReportedIn file blocks ⟨block.1, some (fileAfter file before)⟩
  | several (h : 1 < blocks.length) : ReportedIn file blocks ⟨.start, some (fileAfter file blocks)⟩

theorem reports_apply (c : Config) (block : Position × Text)
    (h : R ⟨block.1, some c.fileName⟩) : Reports R (apply c block) := by
  refine .foldlM (fun c' entry => ?_) _ _
  unfold applyEntry
  split
  · exact .fail _ h
  · exact .pure _
  · dsimp only
    split
    · exact .pure _
    · exact (Reports.note _ h).bind fun _ _ _ _ => .pure _

theorem fileName_of_runs {c c' : Config} {blocks : List (Position × Text)} {j k : Journal}
    (h : (blocks.foldlM apply c).Runs j c' k) : c'.fileName = fileAfter c.fileName blocks := by
  rw [runs_foldlM_apply h]
  unfold Config.fileName Config.get fileAfter assigned
  rw [Entries.get?_insertAll]
  cases (Entries.last? Setting.fileName
    (blocks.flatMap fun block => (entries block.2).filterMap assignment?)) <;> rfl

/-- The file of each block is the one that the blocks before it leave in force. -/
theorem reports_foldlM_apply (c : Config) (blocks : List (Position × Text))
    (h : ∀ before block after, blocks = before ++ block :: after →
      R ⟨block.1, some (fileAfter c.fileName before)⟩) : Reports R (blocks.foldlM apply c) := by
  induction blocks using List.reverseRecOn with
  | nil => exact .pure _
  | append_singleton blocks last ih =>
    rw [List.foldlM_append]
    refine (ih fun before block after heq => ?_).bind fun j c' k hruns => ?_
    · exact h before block (after ++ [last]) (by simp [heq])
    · have hlast := h blocks last [] rfl
      rw [← fileName_of_runs hruns] at hlast
      rw [List.foldlM_cons]
      exact (reports_apply c' last hlast).bind fun _ _ _ _ => .pure _

end MetaBlock

open Stencil.MetaBlock

section Results

variable {source file : Text} {c : Config}

/-- With its file forced, a template reports where blocks begin or at its start; the forced file is
named until a block assigns another one, and is in force again in the end. -/
theorem file_of_preprocess (hforced : c.forced.last? Setting.fileName = some file)
    (hfile : c.fileName = file) (j : Journal) :
    (∃ noted, ((preprocess source c).final j).diagnostics = j.diagnostics ++ noted ∧
      ∀ d ∈ noted, ReportedIn file (blocksFrom .start (parts source)) d.location) ∧
    (∀ s k, (preprocess source c).Stops j s k → ∃ cause l, s = .failed ⟨[], cause, l⟩ ∧
      ReportedIn file (blocksFrom .start (parts source)) l) ∧
    ∀ text c' k, (preprocess source c).Runs j (text, c') k → c'.fileName = file := by
  subst hfile
  have hreports : Reports (ReportedIn c.fileName (blocksFrom .start (parts source)))
      (preprocess source c) := by
    refine (reports_foldlM_apply c _ fun before block after h => .block h).bind ?_
    intro _ c' _ hruns
    dsimp only
    split
    · next hmany =>
      rw [fileName_of_runs hruns]
      exact (Reports.note _ (.several hmany)).bind fun _ _ _ _ => .pure _
    · exact .pure _
  refine ⟨hreports.notes j, fun s k h => hreports.fails h, fun text c' k h => ?_⟩
  rw [preprocess_forSource h, Config.fileName, Config.get, Config.get?_values_forSource, hforced]
  rfl

theorem runs_apply_fileName (p : Position) (c : Config) (j : Journal) :
    (apply c (p, "fileName=x".toList)).Runs j (c.set Setting.fileName ['x']) j := by
  have hentries : entries "fileName=x".toList = ["fileName=x".toList] := by decide
  unfold apply
  rw [hentries]
  exact runs_bind.2 ⟨c.set Setting.fileName ['x'], j, rfl, rfl⟩

/-- Notices go to the file that a block names, and the forced one is in force in the end. -/
theorem file_of_preprocess_other : ∃ (source file : Text) (c c' : Config) (k : Journal),
    c.forced.last? Setting.fileName = some file ∧ c.fileName = file ∧
    (preprocess source c).Runs .empty ([], c') k ∧
    k.diagnostics.map Diagnostic.location = [⟨⟨0, 19⟩, some ['x']⟩, ⟨⟨0, 0⟩, some ['x']⟩] ∧
    (∀ d ∈ k.diagnostics, ReportedIn file (blocksFrom .start (parts source)) d.location) ∧
    c'.fileName = file := by
  let second : Text := "\\\\\\utpp[a=b]".toList
  let source : Text := "\\\\\\utpp[fileName=x]".toList ++ second
  have hfirst : block? source = some ("fileName=x".toList, second) := by decide
  have hsecond : block? second = some ("a=b".toList, []) := by decide
  have hparts : parts source = [.block "fileName=x".toList, .block "a=b".toList] := by
    rw [parts_of_block? hfirst, parts_of_block? hsecond, parts]
  let c : Config := Config.initial.force Setting.fileName ['F']
  let c₁ : Config := c.set Setting.fileName ['x']
  let l : Location := ⟨⟨0, 19⟩, some c₁.fileName⟩
  let i : Journal := Journal.empty.note (.unknownSetting ['a']) l
  let k : Journal := i.note .severalBlocks ⟨.start, some c₁.fileName⟩
  have hentries : entries "a=b".toList = ["a=b".toList] := by decide
  let c₂ : Config := c₁.set ['a'] ['b']
  have hunknown : (apply c₁ (⟨0, 19⟩, "a=b".toList)).Runs .empty c₂ i := by
    unfold apply
    rw [hentries]
    exact runs_bind.2 ⟨c₂, i, rfl, rfl⟩
  have happlied : ([(⟨0, 0⟩, "fileName=x".toList), (⟨0, 19⟩, "a=b".toList)].foldlM apply c).Runs
      .empty c₂ i :=
    runs_bind.2 ⟨c₁, .empty, runs_apply_fileName _ c .empty, runs_bind.2 ⟨c₂, i, hunknown, rfl⟩⟩
  have hruns : (preprocess source c).Runs .empty ([], c₂.restoreForced) k := by
    unfold preprocess
    simp only [hparts]
    exact runs_bind.2 ⟨c₂, i, happlied, runs_bind.2 ⟨(), k, rfl, rfl⟩⟩
  obtain ⟨⟨noted, hnoted, hreported⟩, -, hfile⟩ :=
    @file_of_preprocess source ['F'] c (by decide) (by decide) .empty
  rw [hruns.final_eq] at hnoted
  have hnoted' : k.diagnostics = noted := hnoted
  exact ⟨source, ['F'], c, _, k, by decide, by decide, hruns, by decide, hnoted' ▸ hreported,
    hfile _ _ _ hruns⟩

/-- An entry without a value fails in the file that an earlier block names. -/
theorem file_of_preprocess_missing : ∃ (source file : Text) (c : Config) (f : Failure),
    c.forced.last? Setting.fileName = some file ∧ c.fileName = file ∧
    (preprocess source c).Stops .empty (.failed f) .empty ∧ f.location.file ≠ some file := by
  let second : Text := "\\\\\\utpp[net]".toList
  let source : Text := "\\\\\\utpp[fileName=x]".toList ++ second
  have hfirst : block? source = some ("fileName=x".toList, second) := by decide
  have hsecond : block? second = some ("net".toList, []) := by decide
  have hparts : parts source = [.block "fileName=x".toList, .block "net".toList] := by
    rw [parts_of_block? hfirst, parts_of_block? hsecond, parts]
  let c : Config := Config.initial.force Setting.fileName ['F']
  let c₁ : Config := c.set Setting.fileName ['x']
  let l : Location := ⟨⟨0, 19⟩, some c₁.fileName⟩
  have hentries : entries "net".toList = ["net".toList] := by decide
  have hmissing : (apply c₁ (⟨0, 19⟩, "net".toList)).Stops .empty
      (.failed ⟨[], .config (.missingValue "net".toList), l⟩) .empty := by
    unfold apply
    rw [hentries]
    exact stops_bind.2 (.inl (stops_applyEntry l (by decide)))
  have happlied : ([(⟨0, 0⟩, "fileName=x".toList), (⟨0, 19⟩, "net".toList)].foldlM apply c).Stops
      .empty (.failed ⟨[], .config (.missingValue "net".toList), l⟩) .empty :=
    stops_bind.2 (.inr ⟨c₁, .empty, runs_apply_fileName _ c .empty, stops_bind.2 (.inl hmissing)⟩)
  have hstops : (preprocess source c).Stops .empty
      (.failed ⟨[], .config (.missingValue "net".toList), l⟩) .empty := by
    unfold preprocess
    simp only [hparts]
    exact stops_bind.2 (.inl happlied)
  exact ⟨source, ['F'], c, _, by decide, by decide, hstops, by decide⟩

end Results

end Stencil
