import Stencil.CommandLine
import Stencil.Proofs.Agreement
import Stencil.Proofs.Analysis

/-! A run of the program from its arguments, which are flags and operands. What flags ask for holds
for all files, wherever they stand among them, and each file is rendered on its own. -/
namespace Stencil

namespace Entries

variable {κ α : Type} [DecidableEq κ] {key : κ} {value : α} {e : Entries κ α}

theorem mem_of_last? (h : last? key e = some value) : (key, value) ∈ e := by
  induction e with
  | nil => cases h
  | cons p e ih =>
    obtain ⟨k, v⟩ := p
    rw [last?, Option.or_eq_some_iff] at h
    obtain h | ⟨-, h⟩ := h
    · exact List.mem_cons_of_mem _ (ih h)
    · obtain ⟨rfl, hv⟩ := Option.ite_none_right_eq_some.1 h
      rw [Option.some.inj hv]
      exact List.mem_cons_self

theorem last?_eq_some_iff (h : ∀ v w, (key, v) ∈ e → (key, w) ∈ e → v = w) :
    last? key e = some value ↔ (key, value) ∈ e := by
  refine ⟨mem_of_last?, fun hmem => ?_⟩
  cases hlast : last? key e with
  | none =>
    have hkey : key ∈ keys e := List.mem_map_of_mem hmem
    exact absurd hkey (last?_eq_none_iff.1 hlast)
  | some v => rw [h v value (mem_of_last? hlast) hmem]

end Entries

namespace Config

theorem agrees_foldl_force {e e' : Entries Text Text} (hmem : ∀ p, p ∈ e ↔ p ∈ e')
    (hone : ∀ key v w, (key, v) ∈ e → (key, w) ∈ e → v = w) :
    (e.foldl (fun d (key, value) => d.force key value) initial).Agrees
      (e'.foldl (fun d (key, value) => d.force key value) initial) := by
  have hlast : ∀ key, e.last? key = e'.last? key := by
    refine fun key => Option.ext fun v => ?_
    rw [Entries.last?_eq_some_iff (hone key), hmem, Entries.last?_eq_some_iff]
    intro v w hv hw
    exact hone key v w ((hmem _).2 hv) ((hmem _).2 hw)
  rw [foldl_force, foldl_force]
  refine ⟨fun key => ?_, fun key => ?_⟩
  · rw [Entries.get?_insertAll, Entries.get?_insertAll, hlast]
  · have hnodup : ∀ e : Entries Text Text, (initial.forced.insertAll e).keys.Nodup :=
      fun e => Entries.nodup_keys_insertAll List.nodup_nil
    rw [Entries.last?_eq_get? (hnodup e), Entries.last?_eq_get? (hnodup e'),
      Entries.get?_insertAll, Entries.get?_insertAll, hlast]

end Config

namespace Host

/-- Files, the net and the shell answer the same whenever they are asked. -/
def Fixed (host : Host) : Prop := ∀ calls, host.answers calls = host.answers []

theorem Fixed.after_eq {host : Host} (h : host.Fixed) (past : List Call) :
    host.after past = host := by
  have hanswers : (fun calls => host.answers (past ++ calls)) = host.answers :=
    funext fun calls => (h _).trans (h _).symm
  rw [Host.after, hanswers]

end Host

namespace CommandLine

/-- A flag, and the feature whose gate it opens or closes. -/
structure Flag where
  name : Text
  feature : Feature
  isOpen : Bool
  deriving DecidableEq

/-- The setting that a flag forces, with its value. -/
def Flag.setting (flag : Flag) : Text × Text :=
  (flag.feature.key, if flag.isOpen then Setting.yes else Setting.no)

def flags : List Flag :=
  [⟨"--allow-net".toList, .net, true⟩, ⟨"--allow-exec".toList, .exec, true⟩,
    ⟨"--allow-env".toList, .env, true⟩, ⟨"--no-eval".toList, .eval, false⟩]

def isFlag (arg : Text) : Bool := flags.any (·.name = arg)

/-- The arguments that are no flags. -/
def operands (args : List Text) : List Text := args.filter (!isFlag ·)

/-- Whether an operand is no file: it asks for help, or looks like a flag. -/
def isUnfit (arg : Text) : Bool :=
  arg = "-h".toList || arg = "--help".toList || "--".toList.isPrefixOf arg

/-- The settings that flags force, wherever they stand among arguments and however often. -/
def settings (args : List Text) : Entries Text Text :=
  (flags.filter fun flag => args.contains flag.name).map Flag.setting

/-- The configuration that flags make of the initial one. -/
def flagged (args : List Text) : Config :=
  (settings args).foldl (fun c (key, value) => c.force key value) .initial

/-- How a file ends: with its text or what is reported, and what the host is asked. -/
structure Ending where
  path : Text
  result : Except String Text
  calls : List Call

namespace Ending

variable (e : Ending)

def failed : Bool := !e.result.isOk

/-- What a file adds to the text of a run. One that fails adds nothing. -/
def text : Text := e.result.toOption.getD []

/-- The line that reports a failure. -/
def report : Text :=
  match e.result with
  | .ok _ => []
  | .error message => e.path ++ ": ".toList ++ message.toList ++ ['\n']

/-- The outcome of a file that is the only one. -/
def outcome : Outcome := ⟨if e.failed then 1 else 0, e.text, e.report, e.calls⟩

end Ending

/-- The endings of one file alone. -/
inductive Ends (steps : Nat) (host : Host) (c : Config) (path : Text) : Ending → Prop where
  | unreadable {reason : String} (hread : (host.answers []).read path = .error reason) :
    Ends steps host c path ⟨path, .error reason, [.read path]⟩
  /-- The content is no UTF-8. -/
  | undecodable {bytes : Bytes} (hread : (host.answers []).read path = .ok bytes)
      (hdecode : Utf8.decode? bytes = none) :
    Ends steps host c path ⟨path, .error "stream did not contain valid UTF-8", [.read path]⟩
  | stopped {bytes : Bytes} {source : Text} {s : Stop} {j : Journal}
      (hread : (host.answers []).read path = .ok bytes)
      (hdecode : Utf8.decode? bytes = some source)
      (hstops : (render steps host source (fileConfig c path)).Stops .empty s j) :
    Ends steps host c path ⟨path, .error s.message, .read path :: j.calls⟩
  | rendered {bytes : Bytes} {source text : Text} {j : Journal}
      (hread : (host.answers []).read path = .ok bytes)
      (hdecode : Utf8.decode? bytes = some source)
      (hruns : (render steps host source (fileConfig c path)).Runs .empty text j) :
    Ends steps host c path ⟨path, .ok text, .read path :: j.calls⟩

/-- The outcome of files that end as is said, one after another. -/
def outcomeOf (endings : List Ending) : Outcome where
  code := if endings.any Ending.failed then 1 else 0
  stdout := endings.flatMap Ending.text
  stderr := endings.flatMap Ending.report
  calls := endings.flatMap Ending.calls

section Requests

variable {arg : Text} {args : List Text}

theorem str_eq_iff {t : Text} {s : String} : t.str = s ↔ t = s.toList := by
  constructor
  · rintro rfl
    exact String.toList_ofList.symm
  · rintro rfl
    exact String.ofList_toList

theorem setting?_eq_some_iff {p : Text × Text} :
    setting? arg = some p ↔ ∃ flag ∈ flags, flag.name = arg ∧ flag.setting = p := by
  constructor
  · intro h
    unfold setting? at h
    split at h
    · next harg =>
      exact ⟨flags[0], List.getElem_mem _, (str_eq_iff.1 harg).symm, Option.some.inj h⟩
    · next harg =>
      exact ⟨flags[1], List.getElem_mem _, (str_eq_iff.1 harg).symm, Option.some.inj h⟩
    · next harg =>
      exact ⟨flags[2], List.getElem_mem _, (str_eq_iff.1 harg).symm, Option.some.inj h⟩
    · next harg =>
      exact ⟨flags[3], List.getElem_mem _, (str_eq_iff.1 harg).symm, Option.some.inj h⟩
    · cases h
  · rintro ⟨flag, hflag, rfl, rfl⟩
    revert flag
    decide

theorem isFlag_iff : isFlag arg = true ↔ ∃ flag ∈ flags, flag.name = arg := by
  simp [isFlag]

theorem setting?_eq_none_iff : setting? arg = none ↔ isFlag arg = false := by
  rw [Option.eq_none_iff_forall_ne_some, ← Bool.not_eq_true, isFlag_iff]
  constructor
  · rintro h ⟨flag, hflag, rfl⟩
    exact h _ (setting?_eq_some_iff.2 ⟨flag, hflag, rfl, rfl⟩)
  · intro h p hp
    obtain ⟨flag, hflag, rfl, -⟩ := setting?_eq_some_iff.1 hp
    exact h ⟨flag, hflag, rfl⟩

theorem mem_settings {p : Text × Text} :
    p ∈ settings args ↔ ∃ flag ∈ flags, flag.name ∈ args ∧ flag.setting = p := by
  simp [settings, and_assoc]

theorem mem_filterMap_setting? {p : Text × Text} :
    p ∈ args.filterMap setting? ↔ p ∈ settings args := by
  simp only [List.mem_filterMap, setting?_eq_some_iff, mem_settings]
  constructor
  · rintro ⟨arg, harg, flag, hflag, rfl, rfl⟩
    exact ⟨flag, hflag, harg, rfl⟩
  · rintro ⟨flag, hflag, harg, rfl⟩
    exact ⟨_, harg, flag, hflag, rfl, rfl⟩

theorem operands_cons_of_isFlag (h : isFlag arg = true) :
    operands (arg :: args) = operands args :=
  List.filter_cons_of_neg (by simp [h])

theorem operands_cons_of_not_isFlag (h : isFlag arg = false) :
    operands (arg :: args) = arg :: operands args :=
  List.filter_cons_of_pos (by simp [h])

/-- What an unfit operand makes the program complain about. -/
def complaint? (arg : Text) : Option Text :=
  if arg = "--help".toList || arg = "-h".toList then none
  else some ("Unknown option: ".toList ++ arg)

section

variable {c : Config} {files : List Text}

theorem request_of_isFlag (h : isFlag arg = true) : ∃ p, setting? arg = some p ∧
    request c files (arg :: args) = request (c.force p.1 p.2) files args := by
  obtain ⟨flag, hmem, rfl⟩ := isFlag_iff.1 h
  have hset : setting? flag.name = some flag.setting :=
    setting?_eq_some_iff.2 ⟨flag, hmem, rfl, rfl⟩
  have hhelp : (flag.name = "--help".toList || flag.name = "-h".toList) = false := by
    clear h hset
    revert flag
    decide
  refine ⟨flag.setting, hset, ?_⟩
  rw [request, hhelp, hset]
  rfl

theorem request_of_isUnfit (hflag : isFlag arg = false) (h : isUnfit arg = true) :
    request c files (arg :: args) = .usage (complaint? arg) := by
  rw [request, setting?_eq_none_iff.2 hflag, complaint?]
  split
  · rfl
  · next hhelp =>
    rw [Bool.or_eq_true, not_or] at hhelp
    rw [isUnfit, Bool.or_eq_true, Bool.or_eq_true] at h
    obtain (hh | hh) | hprefix := h
    · exact absurd hh hhelp.2
    · exact absurd hh hhelp.1
    · exact if_pos hprefix

theorem request_of_not_isUnfit (hflag : isFlag arg = false) (h : isUnfit arg = false) :
    request c files (arg :: args) = request c (files ++ [arg]) args := by
  simp only [isUnfit, Bool.or_eq_false_iff] at h
  obtain ⟨⟨hh, hhelp⟩, hprefix⟩ := h
  rw [request, setting?_eq_none_iff.2 hflag, hh, hhelp, hprefix]
  rfl

/-- Arguments ask for what their flags and operands say, of which the first unfit one counts. -/
theorem request_eq : request c files args =
    match (operands args).find? isUnfit with
    | some arg => .usage (complaint? arg)
    | none =>
      if (files ++ operands args).isEmpty then .usage (some "Error: no files specified".toList)
      else .render ((args.filterMap setting?).foldl (fun c (key, value) => c.force key value) c)
        (files ++ operands args) := by
  induction args generalizing c files with
  | nil =>
    rw [request, operands, List.filter_nil, List.find?_nil, List.append_nil]
    rfl
  | cons arg args ih =>
    cases hflag : isFlag arg with
    | true =>
      obtain ⟨p, hset, hrequest⟩ := request_of_isFlag hflag
      rw [hrequest, ih, operands_cons_of_isFlag hflag, List.filterMap_cons_some hset,
        List.foldl_cons]
    | false =>
      rw [operands_cons_of_not_isFlag hflag,
        List.filterMap_cons_none (setting?_eq_none_iff.2 hflag)]
      cases hunfit : isUnfit arg with
      | true => rw [request_of_isUnfit hflag hunfit, List.find?_cons_of_pos hunfit]
      | false =>
        rw [request_of_not_isUnfit hflag hunfit, ih, List.find?_cons_of_neg (by simp [hunfit]),
          List.append_assoc]
        rfl

end

end Requests

section Configurations

variable {args args' : List Text} {flag flag' : Flag}

theorem flag_unique (h : flag ∈ flags) (h' : flag' ∈ flags)
    (hkey : flag.feature.key = flag'.feature.key) : flag = flag' := by
  have hunique : ∀ flag ∈ flags, ∀ flag' ∈ flags,
      flag.feature.key = flag'.feature.key → flag = flag' := by decide
  exact hunique flag h flag' h' hkey

theorem setting_unique {key v w : Text} (hv : (key, v) ∈ settings args)
    (hw : (key, w) ∈ settings args) : v = w := by
  obtain ⟨flag, hflag, -, hv⟩ := mem_settings.1 hv
  obtain ⟨flag', hflag', -, hw⟩ := mem_settings.1 hw
  obtain ⟨rfl, rfl⟩ := Prod.mk.inj hv
  obtain ⟨hkey, rfl⟩ := Prod.mk.inj hw
  rw [flag_unique hflag' hflag hkey]

/-- A run is under the configuration that its flags make. -/
theorem agrees_flagged : ((args.filterMap setting?).foldl
    (fun c (key, value) => c.force key value) Config.initial).Agrees (flagged args) := by
  refine Config.agrees_foldl_force (fun _ => mem_filterMap_setting?) fun key v w hv hw => ?_
  exact setting_unique (mem_filterMap_setting?.1 hv) (mem_filterMap_setting?.1 hw)

theorem last?_settings (hflag : flag ∈ flags) : (settings args).last? flag.feature.key =
    if flag.name ∈ args then some flag.setting.2 else none := by
  split
  · next hmem =>
    rw [Entries.last?_eq_some_iff fun v w => setting_unique]
    exact mem_settings.2 ⟨flag, hflag, hmem, rfl⟩
  · next hmem =>
    rw [Entries.last?_eq_none_iff]
    intro hkey
    obtain ⟨p, hp, hpkey⟩ := List.mem_map.1 hkey
    obtain ⟨flag', hflag', hmem', rfl⟩ := mem_settings.1 hp
    rw [flag_unique hflag' hflag hpkey] at hmem'
    exact hmem hmem'

/-- Every file is rendered with each gate as the flag about it says, wherever it stands. -/
theorem enabled_flagged (hflag : flag ∈ flags) (path : Text) :
    (fileConfig (flagged args) path).enabled flag.feature =
      if flag.name ∈ args then flag.isOpen else !flag.isOpen := by
  have hvalue : (fileConfig (flagged args) path).values.get? flag.feature.key =
      ((settings args).last? flag.feature.key).or (Setting.defaults.get? flag.feature.key) := by
    have hother : ∀ flag ∈ flags, flag.feature.key ≠ Setting.fileName ∧
        flag.feature.key ≠ Setting.filePath := by decide
    obtain ⟨hname, hpath⟩ := hother flag hflag
    simp only [fileConfig, Config.set, Entries.get?_insert, if_neg hname, if_neg hpath, flagged,
      Config.foldl_force, Config.initial, Entries.get?_insertAll]
  have hdefault : ∀ flag ∈ flags, Setting.defaults.get? flag.feature.key =
      some (if flag.isOpen then Setting.no else Setting.yes) := by decide
  rw [Config.enabled, Config.get, hvalue, last?_settings hflag, hdefault flag hflag, Flag.setting]
  cases flag.isOpen <;> split <;> rfl

theorem flagged_congr (h : ∀ flag ∈ flags, flag.name ∈ args' ↔ flag.name ∈ args) :
    flagged args' = flagged args := by
  unfold flagged settings
  rw [List.filter_congr fun flag hflag => ?_]
  rw [Bool.eq_iff_iff, List.contains_iff_mem, List.contains_iff_mem, h flag hflag]

end Configurations

section Files

variable {steps : Nat} {host : Host} {c c' : Config}

theorem fileOutcome_congr (h : c.Agrees c') (path : Text) :
    fileOutcome steps host c path = fileOutcome steps host c' path := by
  have hfile : (fileConfig c path).Agrees (fileConfig c' path) := (h.set _ _).set _ _
  simp only [fileOutcome, renderFile, render_congr hfile]

theorem filesOutcome_congr (h : c.Agrees c') (files : List Text) :
    filesOutcome steps host c files = filesOutcome steps host c' files := by
  induction files generalizing host with
  | nil => rfl
  | cons path files ih => rw [filesOutcome, filesOutcome, fileOutcome_congr h, ih]

theorem outcomeOf_cons (e : Ending) (endings : List Ending) :
    outcomeOf (e :: endings) = e.outcome.append (outcomeOf endings) := by
  have hcode : (if (e :: endings).any Ending.failed then 1 else 0) =
      max (if e.failed then 1 else 0) (if endings.any Ending.failed then 1 else 0) := by
    rw [List.any_cons]
    cases e.failed <;> cases endings.any Ending.failed <;> rfl
  simp only [outcomeOf, Outcome.append, Ending.outcome, hcode, List.flatMap_cons]

theorem exists_ends (hfixed : host.Fixed) (c : Config) (path : Text) :
    ∃ e, Ends steps host c path e ∧ fileOutcome steps host c path = e.outcome := by
  unfold fileOutcome renderFile
  cases hread : (host.answers []).read path with
  | error reason => exact ⟨_, .unreadable hread, rfl⟩
  | ok bytes =>
    dsimp only
    cases hdecode : Utf8.decode? bytes with
    | none => exact ⟨_, .undecodable hread hdecode, rfl⟩
    | some source =>
      dsimp only
      rw [hfixed.after_eq]
      obtain ⟨text, j, hruns⟩ | ⟨s, j, hstops⟩ :=
        Action.runs_or_stops (render steps host source (fileConfig c path)) .empty
      · refine ⟨_, .rendered hread hdecode hruns, ?_⟩
        rw [show (render steps host source (fileConfig c path)).start = _ from hruns]
        rfl
      · refine ⟨_, .stopped hread hdecode hstops, ?_⟩
        rw [show (render steps host source (fileConfig c path)).start = _ from hstops]
        rfl

/-- Files are rendered one after another, and each as if it were alone. -/
theorem exists_endings (hfixed : host.Fixed) (c : Config) (files : List Text) :
    ∃ endings, List.Forall₂ (Ends steps host c) files endings ∧
      filesOutcome steps host c files = outcomeOf endings := by
  induction files with
  | nil => exact ⟨[], .nil, rfl⟩
  | cons path files ih =>
    obtain ⟨e, he, hfile⟩ : ∃ e, Ends steps host c path e ∧
        fileOutcome steps host c path = e.outcome := exists_ends hfixed c path
    obtain ⟨endings, hendings, hfiles⟩ := ih
    refine ⟨e :: endings, .cons he hendings, ?_⟩
    rw [filesOutcome, hfixed.after_eq, hfile, hfiles, outcomeOf_cons]

end Files

section Runs

variable {steps : Nat} {host : Host} {args : List Text}

theorem run_eq : run steps host args =
    match (operands args).find? isUnfit with
    | some arg => answer steps host (.usage (complaint? arg))
    | none =>
      if (operands args).isEmpty then
        answer steps host (.usage (some "Error: no files specified".toList))
      else filesOutcome steps host (flagged args) (operands args) := by
  rw [run, request_eq, List.nil_append]
  split
  · rfl
  · split
    · rfl
    · exact filesOutcome_congr agrees_flagged _

theorem exists_answer_usage (complaint : Option Text) : ∃ stderr,
    answer steps host (.usage complaint) = ⟨2, [], stderr, []⟩ := by
  cases complaint with
  | none => exact ⟨_, rfl⟩
  | some text => exact ⟨_, rfl⟩

end Runs

/-- Without help, unknown flags or lack of files, each file is rendered on its own, in order: its
text is written or its failure reported in a line, and the code tells of failures. Where flags stand
makes no difference. -/
theorem outcome_of_run (steps : Nat) (host : Host) (args : List Text) (hfixed : host.Fixed) :
    ((∃ arg ∈ operands args, isUnfit arg = true) ∨ operands args = [] →
      (run steps host args).code = 2 ∧ (run steps host args).stdout = [] ∧
      (run steps host args).calls = []) ∧
    ((∀ arg ∈ operands args, isUnfit arg = false) → operands args ≠ [] →
      (∀ flag ∈ flags, ∀ path, (fileConfig (flagged args) path).enabled flag.feature =
        if flag.name ∈ args then flag.isOpen else !flag.isOpen) ∧
      ∃ endings, List.Forall₂ (Ends steps host (flagged args)) (operands args) endings ∧
        run steps host args = outcomeOf endings) ∧
    ∀ args', operands args' = operands args →
      (∀ flag ∈ flags, flag.name ∈ args' ↔ flag.name ∈ args) →
      run steps host args' = run steps host args := by
  refine ⟨fun h => ?_, fun hfit hfiles => ?_, fun args' hoperands hflags => ?_⟩
  · have husage : ∃ stderr, run steps host args = ⟨2, [], stderr, []⟩ := by
      rw [run_eq]
      split
      · exact exists_answer_usage _
      · next hfind =>
        obtain ⟨arg, harg, hunfit⟩ | hempty := h
        · exact absurd hunfit (List.find?_eq_none.1 hfind arg harg)
        · rw [if_pos (List.isEmpty_iff.2 hempty)]
          exact exists_answer_usage _
    obtain ⟨stderr, husage⟩ := husage
    rw [husage]
    exact ⟨rfl, rfl, rfl⟩
  · refine ⟨fun flag hflag path => enabled_flagged hflag path, ?_⟩
    have hfind : (operands args).find? isUnfit = none :=
      List.find?_eq_none.2 fun arg harg => by simp [hfit arg harg]
    obtain ⟨endings, hendings, houtcome⟩ := exists_endings hfixed (flagged args) (operands args)
    refine ⟨endings, hendings, ?_⟩
    rw [run_eq, hfind, ← houtcome]
    exact if_neg (by simpa using hfiles)
  · rw [run_eq, run_eq, hoperands, flagged_congr hflags]

/-- A file is rendered twice without its expressions, and one that is missing is reported. -/
theorem outcome_of_run_noEval : ∃ host : Host, host.Fixed ∧
    run 2 host ["--no-eval".toList, ['a'], ['b'], ['a']] = ⟨1, ['x', 'x'], "b: gone\n".toList,
      [.read ['a'], .read ['b'], .read ['a']]⟩ ∧
    run 2 host [['a'], ['b'], "--no-eval".toList, ['a'], "--no-eval".toList] =
      run 2 host ["--no-eval".toList, ['a'], ['b'], ['a']] ∧
    (run 2 host [['a'], "--no-eval".toList, "-h".toList]).stdout = [] := by
  let host : Host :=
    .offline fun path => if path = ['a'] then .ok [120, 96, 49, 96] else .error "gone"
  let args : List Text := ["--no-eval".toList, ['a'], ['b'], ['a']]
  let c : Config := fileConfig (flagged args) ['a']
  let source : Text := "x`1`".toList
  have hfixed : host.Fixed := fun _ => rfl
  have hinitial : c.restoreForced.delimiters = Config.initial.delimiters := by decide
  have htokens : tokenize c.restoreForced.delimiters source =
      .ok (Token.place .start [⟨.raw, ['x']⟩, ⟨.expression, "`1`".toList⟩]) := by
    rw [hinitial, Config.delimiters_initial]
    decide +kernel
  have hprogram : parse c.restoreForced.delimiters
      (Token.place .start [⟨.raw, ['x']⟩, ⟨.expression, "`1`".toList⟩]) =
      .ok [.mk (.raw ['x']) ⟨⟨0, 0⟩, none⟩, .mk (.expression ['1']) ⟨⟨0, 1⟩, none⟩] := by
    rw [hinitial, Config.delimiters_initial]
    rfl
  have hread : (read source c).Runs .empty (_, c.restoreForced) .empty :=
    runs_read (by decide) htokens hprogram
  have hrender : ∃ j, j.calls = [] ∧ (render 2 host source c).Runs .empty ['x'] j := by
    refine ⟨_, ?_, Action.runs_bind.2 ⟨_, _, Action.runs_bind.2 ⟨_, _, hread, rfl⟩, rfl⟩⟩
    rfl
  have hfound : ∀ e, Ends 2 host (flagged args) ['a'] e →
      e = ⟨['a'], .ok ['x'], [.read ['a']]⟩ := by
    have hcontent : (host.answers []).read ['a'] = .ok [120, 96, 49, 96] := rfl
    have hsource : Utf8.decode? [120, 96, 49, 96] = some source := by decide +kernel
    obtain ⟨j, hcalls, hruns⟩ := hrender
    intro e he
    cases he with
    | unreadable hreason => cases hcontent.symm.trans hreason
    | undecodable hbytes hnone =>
      obtain rfl := Except.ok.inj (hcontent.symm.trans hbytes)
      cases hsource.symm.trans hnone
    | stopped hbytes htext hstops =>
      obtain rfl := Except.ok.inj (hcontent.symm.trans hbytes)
      obtain rfl := Option.some.inj (hsource.symm.trans htext)
      exact absurd hstops hruns.not_stops
    | rendered hbytes htext hruns' =>
      obtain rfl := Except.ok.inj (hcontent.symm.trans hbytes)
      obtain rfl := Option.some.inj (hsource.symm.trans htext)
      obtain ⟨rfl, rfl⟩ := hruns.unique hruns'
      rw [hcalls]
  have hmissing : ∀ e, Ends 2 host (flagged args) ['b'] e →
      e = ⟨['b'], .error "gone", [.read ['b']]⟩ := by
    have hcontent : (host.answers []).read ['b'] = .error "gone" := rfl
    intro e he
    cases he with
    | unreadable hreason => rw [Except.error.inj (hcontent.symm.trans hreason)]
    | undecodable hbytes _ => cases hcontent.symm.trans hbytes
    | stopped hbytes _ _ => cases hcontent.symm.trans hbytes
    | rendered hbytes _ _ => cases hcontent.symm.trans hbytes
  obtain ⟨-, hrun, hmoved⟩ := outcome_of_run 2 host args hfixed
  obtain ⟨-, endings, hendings, hrun⟩ := hrun (by decide) (by decide)
  rw [show operands args = [['a'], ['b'], ['a']] by decide] at hendings
  refine ⟨host, hfixed, ?_, hmoved _ (by decide) (by decide), ?_⟩
  · cases hendings with
    | cons h₁ h =>
      cases h with
      | cons h₂ h =>
        cases h with
        | cons h₃ h =>
          cases h
          rw [hrun, hfound _ h₁, hmissing _ h₂, hfound _ h₃]
          rfl
  · have hhelp := (outcome_of_run 2 host [['a'], "--no-eval".toList, "-h".toList] hfixed).1
    exact (hhelp (.inl ⟨"-h".toList, by decide, by decide⟩)).2.1

end CommandLine
end Stencil
