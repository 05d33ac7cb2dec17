import Stencil.Proofs.Attribution
import Stencil.Proofs.Stripping
import Stencil.Proofs.Tower

/-! Which rows of a template are named after its blocks were taken out: those of the template
itself, at every stage from the tokens to the rendering, where no block contains a line break. -/
namespace Stencil

open Stencil.Action Stencil.MetaBlock

/-- A location in what is left of the content of a task, in its file and, where no block spans
lines, in its row. -/
structure Task.Shows (t : Task) (l : Location) : Prop where
  file : l.file = some (t.config.forSource t.content).fileName
  row : InLines t.content → InRow t.content l.position

/-- A location at which something is reported while the settings of a task are read. -/
def Task.Announces (t : Task) (l : Location) : Prop :=
  ReportedIn t.config.fileName (blocksFrom .start (parts t.content)) l

/-- A location in what is left of the file that a path of imports leads to, from `t` at `j` on. -/
def ShownAlong (host : Host) (t : Task) (j : Journal) (path : List Passage) (l : Location) : Prop :=
  ∃ t' i, Reaches host t j path t' i ∧ t'.Shows l

/-- A location among the settings of the file that a path of imports leads to. -/
def AnnouncedAlong (host : Host) (t : Task) (j : Journal) (path : List Passage) (l : Location) :
    Prop :=
  ∃ t' i, Reaches host t j path t' i ∧ t'.Announces l

section Reading

variable {R : Location → Prop} {t : Task} {c c' : Config} {j k : Journal}

theorem preprocess_strip {source rest : Text} (h : (preprocess source c).Runs j (rest, c') k) :
    rest = strip source := by
  obtain ⟨c₁, i, -, h⟩ := runs_bind.1 h
  dsimp only at h
  split at h
  · obtain ⟨_, i', -, h⟩ := runs_bind.1 h
    exact (Prod.mk.inj (runs_pure.1 h).1).1
  · exact (Prod.mk.inj (runs_pure.1 h).1).1

theorem Task.shows_of_placeOf {p : Position} (h : PlaceOf (strip t.content) p) :
    t.Shows ⟨p, some (t.config.forSource t.content).fileName⟩ :=
  ⟨rfl, fun hlines => inRow_of_placeOf hlines h⟩

theorem reports_preprocess (t : Task) : Reports t.Announces (preprocess t.content t.config) := by
  refine (reports_foldlM_apply t.config _ fun before block after h => .block h).bind ?_
  intro _ c' _ hruns
  dsimp only
  split
  · next hmany =>
    rw [fileName_of_runs hruns]
    exact (Reports.note _ (.several hmany)).bind fun _ _ _ _ => .pure _
  · exact .pure _

theorem stops_inFile {κ α : Type} {cause : κ → Cause} {file : Text} {r : Except (Fault κ) α}
    {s : Stop} (h : (inFile cause file r).Stops j s k) : ∃ fault, r = .error fault ∧
      s = .failed ⟨[], cause fault.cause, ⟨fault.position, some file⟩⟩ := by
  cases r with
  | ok x => exact absurd h stops_pure
  | error fault => exact ⟨fault, rfl, (stops_fail.1 h).1⟩

theorem notes_read (t : Task) (j : Journal) : Notes t.Announces (read t.content t.config) j := by
  have hsilent : ∀ {κ α : Type} (cause : κ → Cause) (file : Text) (r : Except (Fault κ) α)
      (i : Journal), Notes t.Announces (inFile cause file r) i := by
    intro κ α cause file r i
    cases r <;> exact ⟨[], (List.append_nil _).symm, nofun⟩
  exact Notes.bind ((reports_preprocess t).notes j) fun _ _ _ =>
    (hsilent _ _ _ _).bind fun _ _ _ => (hsilent _ _ _ _).bind fun _ _ _ => .pure _ _

theorem stops_read {s : Stop} (h : (read t.content t.config).Stops j s k) :
    ∃ cause l, s = .failed ⟨[], cause, l⟩ ∧
      (t.Shows l ∨ t.Announces l ∧ ∃ e, cause = .config e) := by
  obtain hstops | ⟨⟨rest, c⟩, i, hruns, h⟩ := stops_bind.1 h
  · obtain ⟨cause, l, rfl, hl⟩ := (reports_preprocess t).fails hstops
    obtain ⟨hgood, hfault⟩ := preprocess_cases t.content t.config j
    cases hlacking : (blocksFrom .start (parts t.content)).findSome? lacking? with
    | none =>
      obtain ⟨k', hruns⟩ := hgood hlacking
      exact absurd hstops hruns.not_stops
    | some entry =>
      obtain ⟨file, k', hstops'⟩ := hfault _ _ hlacking
      cases hstops.symm.trans hstops'
      exact ⟨_, _, rfl, .inr ⟨hl, _, rfl⟩⟩
  obtain rfl := preprocess_strip hruns
  obtain rfl := preprocess_forSource hruns
  obtain hlex | ⟨tokens, i', hlex, h⟩ := stops_bind.1 h
  · obtain ⟨fault, hfault, rfl⟩ := stops_inFile hlex
    exact ⟨_, _, rfl, .inl (t.shows_of_placeOf (placeOf_of_tokenize hfault))⟩
  obtain hparse | ⟨program, i'', -, h⟩ := stops_bind.1 h
  · obtain ⟨fault, hfault, rfl⟩ := stops_inFile hparse
    have hparsed := parse_placed (runs_inFile.1 hlex).1
    rw [hfault] at hparsed
    exact ⟨_, _, rfl, .inl (t.shows_of_placeOf hparsed)⟩
  · exact absurd h stops_pure

/-- The nodes of a file stand at places in what is left of it. -/
theorem read_placed {source : Text} {program : List Node}
    (h : (read source c).Runs j (program, c') k) :
    ∀ n ∈ program, n.Everywhere (Node.PlacedIn (strip source)) := by
  obtain ⟨⟨rest, c₁⟩, i, hpre, h⟩ := runs_bind.1 h
  obtain ⟨tokens, i', htokens, h⟩ := runs_bind.1 h
  obtain ⟨program', i'', hparse, h⟩ := runs_bind.1 h
  obtain ⟨hp, -⟩ := runs_pure.1 h
  obtain ⟨rfl, rfl⟩ := Prod.mk.inj hp
  obtain rfl := preprocess_strip hpre
  have hparsed := parse_placed (runs_inFile.1 htokens).1
  rw [(runs_inFile.1 hparse).1] at hparsed
  exact hparsed

theorem Task.shows_of_read {program : List Node} {m n : Node}
    (h : (read t.content t.config).Runs j (program, c) k) (hn : n ∈ program) (hm : m.Occurs n) :
    t.Shows ⟨m.location.position, some c.fileName⟩ := by
  have hplaced : m.PlacedIn (strip t.content) := read_placed h n hn m hm
  rw [read_forSource h]
  exact t.shows_of_placeOf hplaced.1

end Reading

namespace Use

variable {host : Host} {c : Config} {u : Use}

theorem reports_invalid {α : Type} (cause : ImportCause) :
    Reports (· = u.location) (fail (.importing cause) u.location : Action α) := .fail _ rfl

theorem reports_note (n : Notice) : Reports (· = u.location) (note n u.location) := .note n rfl

theorem reports_targetText? : Reports (· = u.location) (u.targetText? host c) := by
  unfold targetText?
  dsimp only
  split
  · split
    · refine (Reports.call _).bind fun _ _ _ _ => ?_
      rw [pure_bind]
      split
      · split
        · exact reports_invalid _
        · exact .pure _
      · exact reports_invalid _
    · exact (reports_note _).bind fun _ _ _ _ => .pure _
  · rw [pure_bind]
    split
    · split
      · exact reports_invalid _
      · exact .pure _
    · exact reports_invalid _

theorem reports_wantedHash : Reports (· = u.location) u.wantedHash := by
  unfold wantedHash
  split
  · exact .pure _
  · split
    · exact .pure _
    · exact reports_invalid _

theorem reports_override (entry : Text × Option Node) :
    Reports (· = u.location) (u.override entry) := by
  rw [override_eq]
  obtain ⟨key, value⟩ := entry
  refine Reports.bind ?_ fun _ _ _ _ => ?_
  · split
    · exact .pure _
    · exact .note _ rfl
  · cases value with
    | none => exact .pure _
    | some n =>
      dsimp only [Option.elim_some]
      cases n.text? with
      | none => exact reports_invalid _
      | some t => exact .pure _

theorem reports_aim : Reports (· = u.location) (u.aim host c) := by
  have hskipped : ∀ n : Notice, Reports (· = u.location) (do
      note n u.location
      pure none : Action (Option Aim)) := fun _ => (reports_note _).bind fun _ _ _ _ => .pure _
  unfold aim
  split
  · exact hskipped _
  refine reports_targetText?.bind fun _ target? _ _ => ?_
  cases target? with
  | none => exact .pure _
  | some target =>
    refine reports_wantedHash.bind fun _ wanted _ _ => ?_
    refine (Reports.mapM reports_override _).bind fun _ made _ _ => ?_
    split
    · exact hskipped _
    · split
      · exact .pure _
      · exact hskipped _

theorem reports_load (target : Text) : Reports (· = u.location) (u.load host c target) := by
  unfold load
  split
  · refine (Reports.answers host).bind fun _ now _ _ => (Reports.call _).bind fun _ _ _ _ => ?_
    split
    · exact .pure _
    · exact reports_invalid _
  · refine (Reports.answers host).bind fun _ now _ _ => (Reports.call _).bind fun _ _ _ _ => ?_
    split
    · exact (reports_invalid _).bind fun _ _ _ hruns => absurd hruns runs_fail
    · refine (Reports.answers host).bind fun _ now _ _ => (Reports.call _).bind fun _ _ _ _ => ?_
      split
      · exact .pure _
      · exact reports_invalid _

theorem reports_enter (chain : List Text) (a : Aim) :
    Reports (· = u.location) (u.enter host c chain a) := by
  have hcycle : Reports (· = u.location) (u.checkCycle chain (c.keyOf a.target)) := by
    unfold checkCycle
    split
    · exact reports_invalid _
    · exact .pure _
  have hhash : ∀ bytes, Reports (· = u.location) (u.checkHash host a.target a.wanted bytes) := by
    intro bytes
    unfold checkHash
    dsimp only
    split
    · exact .pure _
    · exact reports_invalid _
  have hcontent : ∀ encoding bytes,
      Reports (· = u.location) (u.decodeContent a.target encoding bytes) := by
    intro encoding bytes
    unfold decodeContent
    split
    · exact (reports_note _).bind fun _ _ _ _ => .pure _
    · split
      · exact .pure _
      · exact reports_invalid _
  exact hcycle.bind fun _ _ _ _ => (reports_load _).bind fun _ _ _ _ =>
    (hhash _).bind fun _ _ _ _ => (hcontent _ _).bind fun _ _ _ _ =>
      (reports_note _).bind fun _ _ _ _ => .pure _

end Use

section Compiling

variable {host : Host} {t : Task} {c : Config} {u : Use} {i j k : Journal} {path : List Passage}

theorem Comes.shows (h : Comes host t j u c i) : t.Shows u.location := by
  obtain ⟨hread, huses, -⟩ := h
  next program before after contributions depth i' =>
  obtain ⟨n, hn, m, hm, -, hlocation⟩ :=
    exists_node_of_mem_importsOf hread (show u ∈ importsOf c program by simp [huses])
  exact hlocation ▸ t.shows_of_read hread hn hm

theorem Enters.shows {p : Passage} {t' : Task} (h : Enters host t j p t' i) :
    t.Shows p.asInclude.location := by
  obtain ⟨hcomes, -, -⟩ := h
  exact hcomes.shows

theorem Task.Fails.shows {s : Stop} (h : t.Fails host j s k) :
    ∃ cause l, s = .failed ⟨[], cause, l⟩ ∧
      (t.Shows l ∨ t.Announces l ∧ ∃ e, cause = .config e) := by
  cases h with
  | unread h => exact stops_read h
  | unaimed hcomes h =>
    obtain ⟨cause, _, hs, rfl⟩ := Use.reports_aim.fails h
    exact ⟨cause, _, hs, .inl hcomes.shows⟩
  | unentered hcomes haim h =>
    obtain ⟨cause, _, hs, rfl⟩ := (Use.reports_enter _ _).fails h
    exact ⟨cause, _, hs, .inl hcomes.shows⟩

/-- However a compilation ends, what it notes is in a file that it comes to. -/
theorem Task.notes_compile (depth : Nat) (t : Task) (j : Journal) :
    Notes (fun l => ∃ path, ShownAlong host t j path l ∨ AnnouncedAlong host t j path l)
      (t.compile host depth) j := by
  induction depth generalizing t j with
  | zero => exact ⟨[], (List.append_nil _).symm, nofun⟩
  | succ depth ih =>
    refine Notes.bind ((notes_read t j).mono fun l hl => ⟨[], .inr ⟨t, j, .here t j, hl⟩⟩)
      fun ⟨program, c⟩ i hread => ?_
    refine Notes.bind (Notes.mapM fun before u after done i' huses hbefore => ?_)
      fun _ _ _ => .pure _ _
    have hcomes : Comes host t j u c i' := .intro hread huses hbefore
    have atImport : ∀ l, l = u.location →
        ∃ path, ShownAlong host t j path l ∨ AnnouncedAlong host t j path l :=
      fun l hl => ⟨[], .inl ⟨t, j, .here t j, hl ▸ hcomes.shows⟩⟩
    rw [Use.resolve_eq]
    refine (Use.reports_aim.notes_imp i' atImport).bind fun a? i₁ haim => ?_
    cases a? with
    | none => exact .pure _ _
    | some a =>
      refine ((Use.reports_enter _ _).notes_imp i₁ atImport).bind fun t' i₂ henter => ?_
      have henters := Enters.intro hcomes haim henter
      refine Notes.within ((ih t' i₂).mono fun l hl => ?_) _
      obtain ⟨path, ⟨t'', i₃, hreaches, hl⟩ | ⟨t'', i₃, hreaches, hl⟩⟩ := hl
      · exact ⟨_, .inl ⟨t'', i₃, .through henters hreaches, hl⟩⟩
      · exact ⟨_, .inr ⟨t'', i₃, .through henters hreaches, hl⟩⟩

/-- The nodes of a compiled program are shown in files that the compilation comes to. -/
theorem shownAlong_of_standsAt {depth : Nat} {program : List Node} {l : Location}
    (h : (t.compile host depth).Runs j program k) (hl : StandsAt program l) :
    ∃ path, ShownAlong host t j path l := by
  obtain ⟨n, hn, m, hm, rfl⟩ := hl
  obtain ⟨path, t', i, original, c₁, i₁, hreaches, hread, n₀, hn₀, rfl⟩ :=
    Task.exists_read_of_mem h n hn
  obtain ⟨m', hm', rfl⟩ := hm.exists_of_withoutUses
  obtain ⟨m₀, hm₀, rfl⟩ := hm'.exists_of_stamp
  have hunknown := read_knowsNoFile hread n₀ hn₀ m₀ hm₀
  refine ⟨path, t', i, hreaches, ?_⟩
  rw [Node.location_withoutUses, hunknown.location_stamp]
  exact t'.shows_of_read hread hn₀ hm₀

end Compiling

section Results

variable {host : Host} {source text : Text} {c c' : Config} {j k : Journal}

/-- A compilation fails in the file that the imports around the failure lead to, and each of these
stands in the file that those before it lead to. -/
theorem shownAlong_of_stops {f : Failure} (h : (compile host source c).Stops j (.failed f) k) :
    ∃ path, f.includes = path.map Passage.asInclude ∧
      (ShownAlong host (.root source c) j path f.location ∨
        AnnouncedAlong host (.root source c) j path f.location ∧ ∃ e, f.cause = .config e) ∧
      ∀ before p after, path = before ++ p :: after →
        ShownAlong host (.root source c) j before p.asInclude.location := by
  obtain ⟨path, t, i, f₀, hreaches, hfails, rfl⟩ := Task.exists_fails (stops_root.1 h)
  obtain ⟨cause, l, hs, hl⟩ := hfails.shows
  obtain rfl := Stop.failed.inj hs
  rw [Failure.along_eq]
  refine ⟨path, List.append_nil _, ?_, ?_⟩
  · obtain hl | ⟨hl, hcause⟩ := hl
    · exact .inl ⟨t, i, hreaches, hl⟩
    · exact .inr ⟨⟨t, i, hreaches, hl⟩, hcause⟩
  · rintro before p after rfl
    obtain ⟨t₁, i₁, t₂, i₂, hbefore, henters, -⟩ := hreaches.exists_enters
    exact ⟨t₁, i₁, hbefore, henters.shows⟩

/-- Where no block spans lines, what is left of a template has its lines, each without its own
blocks; places named later, but for those of settings, are in their rows, also in files that are
imported. -/
theorem rows_of_preprocess (hblocks : ∀ body, .block body ∈ parts source → '\n' ∉ body)
    (h : (preprocess source c).Runs j (text, c') k) :
    text.splitOn '\n' = (source.splitOn '\n').map strip ∧
    blocksFrom .start (parts source) = (source.splitOn '\n').zipIdx.flatMap
      (fun (line, row) => blocksFrom ⟨row, 0⟩ (parts line)) ∧
    (match tokenize c'.delimiters text with
    | .error fault => InRow source fault.position
    | .ok tokens => (∀ t ∈ tokens, InRow source t.position) ∧
      match parse c'.delimiters tokens with
      | .error fault => InRow source fault.position
      | .ok program => ∀ n ∈ program, ∀ m : Node, m.Occurs n →
        InRow source m.location.position ∧ ∀ p ∈ m.form.params?, InRow source p.location.position) ∧
    ∀ host,
      (∀ f k, (compile host source c).Stops j (.failed f) k → ∃ path,
        f.includes = path.map Passage.asInclude ∧
        (ShownAlong host (.root source c) j path f.location ∨
          AnnouncedAlong host (.root source c) j path f.location ∧ ∃ e, f.cause = .config e) ∧
        ∀ before p after, path = before ++ p :: after →
          ShownAlong host (.root source c) j before p.asInclude.location) ∧
      Notes (fun l => ∃ path, ShownAlong host (.root source c) j path l ∨
        AnnouncedAlong host (.root source c) j path l) (compile host source c) j ∧
      ∀ program c'' k, (compile host source c).Runs j (program, c'') k →
        ∀ (steps : Nat) (host' : Host) (c₀ : Config) (j₀ : Journal),
          (∀ f k₀, (interpret steps host' c₀ program).Stops j₀ (.failed f) k₀ →
            f.includes = [] ∧ ∃ path, ShownAlong host (.root source c) j path f.location) ∧
          Notes (fun l => ∃ path, ShownAlong host (.root source c) j path l)
            (interpret steps host' c₀ program) j₀ := by
  obtain rfl := preprocess_strip h
  have hplace : ∀ p, PlaceOf (strip source) p → InRow source p :=
    fun p hp => inRow_of_placeOf hblocks hp
  refine ⟨splitOn_strip hblocks, blocksFrom_lines hblocks 0, ?_, fun host => ⟨?_, ?_, ?_⟩⟩
  · split
    · next fault hlex => exact hplace _ (placeOf_of_tokenize hlex)
    · next tokens hlex =>
      refine ⟨fun t ht => hplace _ (placeOf_of_placeIn hlex (placeIn_position ht)), ?_⟩
      have hparsed := parse_placed hlex
      split
      · next fault hparse =>
        rw [hparse] at hparsed
        exact hplace _ hparsed
      · next program hparse =>
        rw [hparse] at hparsed
        intro n hn m hm
        have hplaced : m.PlacedIn (strip source) := hparsed n hn m hm
        exact ⟨hplace _ hplaced.1, fun p hp => hplace _ (hplaced.2 p hp)⟩
  · exact fun f k hstops => shownAlong_of_stops hstops
  · rw [compile_eq]
    exact (Task.notes_compile _ _ j).bind fun _ _ _ => .pure _ _
  · intro program c'' k hcompile steps host' c₀ j₀
    obtain ⟨-, hroot⟩ := runs_compile.1 hcompile
    have hknown : ∀ n ∈ program, n.Everywhere Node.KnowsFile :=
      fun n hn => (compileImport_resolved _ hroot n hn).imp fun _ hm => hm.2
    obtain ⟨hfails, hnoted⟩ := @standsAt_of_interpret host' c₀ steps program j₀ hknown
    refine ⟨fun f k₀ hstops => ?_, Notes.mono hnoted fun l hl => shownAlong_of_standsAt hroot hl⟩
    obtain ⟨hincludes, hl⟩ := hfails f k₀ hstops
    exact ⟨hincludes, shownAlong_of_standsAt hroot hl⟩

theorem rows_of_preprocess_unterminated : ∃ (source text : Text) (c c' : Config) (k : Journal),
    (∀ body, .block body ∈ parts source → '\n' ∉ body) ∧
    (preprocess source c).Runs .empty (text, c') k ∧ source ≠ text ∧
    text.splitOn '\n' = (source.splitOn '\n').map strip ∧
    tokenize c'.delimiters text = .error ⟨.unterminated, ⟨1, 0⟩⟩ ∧ InRow source ⟨1, 0⟩ := by
  let text : Text := ['x', '\n', Char.ofNat 96]
  let source : Text := "\\\\\\utpp[net=true]".toList ++ text
  let c : Config := Config.initial
  have hblock : block? source = some ("net=true".toList, text) := by decide
  have hparts : parts source = .block "net=true".toList :: text.map .plain := by
    rw [parts_of_block? hblock, parts_eq_map_plain (by decide)]
  have hblocks : ∀ body, .block body ∈ parts source → '\n' ∉ body := by
    intro body hbody
    rw [hparts] at hbody
    obtain heq | hbody := List.mem_cons.1 hbody
    · cases heq
      decide
    · simp at hbody
  have hlacking : (blocksFrom .start (parts source)).findSome? lacking? = none := by
    rw [hparts]
    decide
  obtain ⟨k, hruns⟩ := (preprocess_cases source c .empty).1 hlacking
  have hstrip : (parts source).flatMap Part.rest = text := by
    rw [hparts]
    rfl
  have hdelimiters : (c.forSource source).delimiters = Config.initial.delimiters := by
    unfold Config.forSource assignments
    rw [hparts]
    decide
  have hlex : tokenize (c.forSource source).delimiters text = .error ⟨.unterminated, ⟨1, 0⟩⟩ := by
    rw [hdelimiters, Config.delimiters_initial]
    cbv
  rw [hstrip] at hruns
  obtain ⟨hlines, -, hplaces, -⟩ := rows_of_preprocess hblocks hruns
  rw [hlex] at hplaces
  exact ⟨source, text, c, _, k, hblocks, hruns, by decide, hlines, hlex, hplaces⟩

end Results

end Stencil
