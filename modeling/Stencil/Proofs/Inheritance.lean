import Stencil.Proofs.Descent

/-! Which settings an imported file is under: who the file is comes first, then what the imports on
the way to it set, the deepest first, then what the template was forced to, then what the file
assigns itself. Nothing else of an importer passes on. -/
namespace Stencil

open Stencil.Action

variable {host : Host} {r t : Task} {path : List Passage} {p : Passage} {j₀ j : Journal}

theorem Enters.last?_forced {t' : Task} (h : Enters host t j₀ p t' j) (key : Text) :
    t'.config.forced.last? key =
      if key = Setting.filePath then some p.directory
      else if key = Setting.fileName then some p.target
      else (p.use.setting? key).or (t.config.forced.last? key) := by
  obtain ⟨himporter, hconfig⟩ := h.config_eq
  rw [hconfig, Config.last?_forced_forImport, himporter, Config.forced_forSource]
  rfl

/-- What a path of imports forces on the content at its end. -/
theorem Reaches.last?_forced (h : Reaches host r j₀ (path ++ [p]) t j) (key : Text) :
    t.config.forced.last? key =
      if key = Setting.filePath then some p.directory
      else if key = Setting.fileName then some p.target
      else ((path ++ [p]).reverse.findSome? fun q => q.use.setting? key).or
        (r.config.forced.last? key) := by
  induction path generalizing r j₀ with
  | nil =>
    obtain ⟨⟩ | ⟨first, ⟨⟩⟩ := h
    rw [first.last?_forced]
    simp
  | cons q path ih =>
    obtain ⟨⟩ | ⟨first, rest⟩ := h
    rw [ih rest, first.last?_forced]
    have hreverse : (q :: path ++ [p]).reverse = (path ++ [p]).reverse ++ [q] := by simp
    split
    · rfl
    · split
      · rfl
      · rw [hreverse, List.findSome?_append, Option.or_assoc]
        simp

/-- Before it is read, content has the values that settings begin with where nothing is forced. -/
theorem Reaches.get?_values (h : Reaches host r j₀ (path ++ [p]) t j) (key : Text) :
    t.config.values.get? key =
      (t.config.forced.last? key).or (Setting.defaults.get? key) := by
  induction path generalizing r j₀ with
  | nil =>
    obtain ⟨⟩ | ⟨first, ⟨⟩⟩ := h
    rw [first.config_eq.2]
    exact Config.get?_values_forImport
  | cons q path ih =>
    obtain ⟨⟩ | ⟨-, rest⟩ := h
    exact ih rest

/-- The settings of a file at the end of a path of imports, under which the last import is resolved;
where the template compiles, its program has the file's in it. -/
theorem get_of_reaches {source rest : Text} {c c' : Config} {k : Journal}
    (h : Reaches host (.root source c) j₀ (path ++ [p]) t j)
    (hpre : (preprocess t.content t.config).Runs j (rest, c') k) :
    (∃ importer j₁ i, Reaches host (.root source c) j₀ path importer j₁ ∧
      Comes host importer j₁ p.use p.importer i ∧
      ∀ nested, (p.use.resolve host p.importer nested importer.chain).outcome i =
        (within ⟨p.target, p.use.location⟩ (nested t.content t.config t.chain)).outcome j) ∧
    (∀ program c₁ k₁, (compile host source c).Runs j₀ (program, c₁) k₁ →
      ∃ depth body k₂, (compileImport host depth t.content t.config t.chain).Runs j body k₂ ∧
        body <:+: program) ∧
    (∀ key, c'.get key =
      if key = Setting.fileName then p.target
      else if key = Setting.filePath then p.directory
      else (((path ++ [p]).reverse.findSome? fun q => q.use.setting? key).or
        ((c.forced.last? key).or
          (((MetaBlock.assignments t.content).last? key).or
            (Setting.defaults.get? key)))).getD []) ∧
    (∀ program c₁ k₁, (read t.content t.config).Runs j (program, c₁) k₁ → c₁ = c') ∧
    ∀ u c₁ i, Comes host t j u c₁ i → c₁ = c' := by
  obtain rfl := preprocess_forSource hpre
  refine ⟨?_, ?_, fun key => ?_, fun _ _ _ => read_forSource, fun _ _ _ => Comes.eq_forSource⟩
  · obtain ⟨importer, j₁, _, _, hbefore, henters, ⟨⟩⟩ := h.exists_enters
    obtain ⟨i, hcomes, hresolve⟩ := henters.outcome_resolve
    exact ⟨importer, j₁, i, hbefore, hcomes, hresolve⟩
  · intro program c₁ k₁ hcompile
    obtain ⟨depth, body, k₂, hbody, hinfix⟩ := h.runs (runs_compile.1 hcompile).2
    exact ⟨_, body, k₂, hbody, hinfix⟩
  have hne : Setting.fileName ≠ Setting.filePath := by decide
  unfold Config.get
  rw [Config.get?_values_forSource, h.get?_values, h.last?_forced]
  by_cases hpath : key = Setting.filePath
  · simp [hpath, hne.symm]
  · by_cases hname : key = Setting.fileName
    · simp [hname, hne]
    · simp only [hpath, hname, if_false, Task.root]
      cases (path ++ [p]).reverse.findSome? fun q => q.use.setting? key with
      | some v => rfl
      | none =>
        cases c.forced.last? key with
        | some v => rfl
        | none => rfl

/-- What an import forces, its content cannot change; what is not forced, the content sets for
itself. -/
theorem get_of_reaches_override :
    ∃ (host : Host) (c c' : Config) (p : Passage) (t : Task) (j k : Journal) (rest : Text),
      Reaches host (.root "\\use[net=true]{b}".toList c) .empty ([] ++ [p]) t j ∧
      (preprocess t.content t.config).Runs j (rest, c') k ∧
      ((c'.enabled .net = true ∧ c'.enabled .eval = false ∧ c'.enabled .env = false) ∧
        c'.fileName = ['b'] ∧ c'.encoding = "latin1".toList) ∧
      (∃ importer j₁ i, Reaches host (.root "\\use[net=true]{b}".toList c) .empty [] importer j₁ ∧
        Comes host importer j₁ p.use p.importer i ∧
        ∀ nested, (p.use.resolve host p.importer nested importer.chain).outcome i =
          (within ⟨p.target, p.use.location⟩ (nested t.content t.config t.chain)).outcome j) ∧
      (∀ program c₁ k₁,
        (compile host "\\use[net=true]{b}".toList c).Runs .empty (program, c₁) k₁ →
        ∃ depth body k₂, (compileImport host depth t.content t.config t.chain).Runs j body k₂ ∧
          body <:+: program) ∧
      (∀ key, c'.get key =
        if key = Setting.fileName then p.target
        else if key = Setting.filePath then p.directory
        else ((([] ++ [p]).reverse.findSome? fun (q : Passage) => q.use.setting? key).or
          ((c.forced.last? key).or
            (((MetaBlock.assignments t.content).last? key).or
              (Setting.defaults.get? key)))).getD []) ∧
      (∀ program c₁ k₁, (read t.content t.config).Runs j (program, c₁) k₁ → c₁ = c') ∧
      ∀ u c₁ i, Comes host t j u c₁ i → c₁ = c' := by
  let content : Text := "\\\\\\utpp[net=false,eval=false]".toList
  let host : Host := .offline fun _ => .ok (Encoding.octets content)
  let c : Config :=
    (Config.initial.force Setting.fileEncoding "latin1".toList).set Feature.env.key Setting.yes
  let name : Text := "stdin".toList
  have hinitial : c.restoreForced.delimiters = Config.initial.delimiters := rfl
  have htemplate : tokenize Config.initial.delimiters "\\use[net=true]{b}".toList =
      .ok (Token.place .start
        [⟨.escape, ['\\']⟩, ⟨.commandName, "use".toList⟩, ⟨.paramStart, ['[']⟩,
          ⟨.paramKey, Feature.net.key⟩, ⟨.paramAssign, ['=']⟩, ⟨.raw, Setting.yes⟩,
          ⟨.paramEnd, [']']⟩, ⟨.argStart, ['{']⟩, ⟨.raw, ['b']⟩, ⟨.argEnd, ['}']⟩]) := by
    rw [Config.delimiters_initial]
    cbv
  let target : Node := .mk (.group [.mk (.raw ['b']) ⟨⟨0, 15⟩, none⟩]) ⟨⟨0, 14⟩, none⟩
  let value : Node := .mk (.group [.mk (.raw Setting.yes) ⟨⟨0, 9⟩, none⟩]) ⟨⟨0, 8⟩, none⟩
  let statement : Node :=
    .mk (.use target none (some ⟨[(Feature.net.key, some value)], ⟨⟨0, 4⟩, none⟩⟩)) ⟨⟨0, 0⟩, none⟩
  have hread : (read "\\use[net=true]{b}".toList c).Runs .empty
      ([statement], c.restoreForced) .empty :=
    runs_read (by decide) (hinitial ▸ htemplate) rfl
  have hroot : Task.root "\\use[net=true]{b}".toList c =
      ⟨"\\use[net=true]{b}".toList, c, [name]⟩ := Task.root_eq (by decide)
  let u : Use :=
    ⟨target.stamp name, none, some ⟨[(Feature.net.key, some (value.stamp name))],
      ⟨⟨0, 4⟩, name⟩⟩, ⟨⟨0, 0⟩, name⟩⟩
  let a : Aim := ⟨['b'], [], [(Feature.net.key, Setting.yes)]⟩
  let inner : Config := c.restoreForced.forImport ['b'] ['.'] a.overrides
  let t : Task := ⟨content, inner, [name, ['b']]⟩
  let i : Journal := (Journal.empty.call (.probe ['b'] true)).call (.read ['b'])
  let j : Journal := i.note (.importing ['b'] true) u.location
  have huses : importsOf c.restoreForced [statement] = [u] := rfl
  have hcomes : Comes host ⟨"\\use[net=true]{b}".toList, c, [name]⟩ .empty u c.restoreForced
      .empty := .first hread huses
  have haim : (u.aim host c.restoreForced).Runs .empty (some a) .empty := rfl
  have hload : (u.load host c.restoreForced ['b']).Runs .empty (Encoding.octets content) i := rfl
  have hdecode : (u.decodeContent ['b'] inner.encoding (Encoding.octets content)).Runs i
      content i := rfl
  have henter : (u.enter host c.restoreForced [name] a).Runs .empty t j :=
    runs_bind.2 ⟨_, _, rfl, runs_bind.2 ⟨_, _, hload, runs_bind.2 ⟨_, _, rfl,
      runs_bind.2 ⟨_, _, hdecode, rfl⟩⟩⟩⟩
  have hreaches : Reaches host (.root "\\use[net=true]{b}".toList c) .empty
      ([] ++ [⟨u, ['b'], c.restoreForced⟩]) t j :=
    hroot ▸ .through (.intro hcomes haim henter) (.here _ _)
  have hparts : MetaBlock.parts content = [.block "net=false,eval=false".toList] := by
    have hblock : MetaBlock.block? content = some ("net=false,eval=false".toList, []) := rfl
    rw [MetaBlock.parts_of_block? hblock, MetaBlock.parts]
  have hpre : (preprocess content inner).Runs j ([], inner.forSource content) j := by
    unfold Config.forSource MetaBlock.assignments preprocess
    rw [hparts]
    rfl
  refine ⟨host, c, _, _, t, j, j, [], hreaches, hpre, ?_, get_of_reaches hreaches hpre⟩
  unfold Config.forSource MetaBlock.assignments
  rw [hparts]
  exact ⟨⟨rfl, rfl, rfl⟩, rfl, rfl⟩

end Stencil
