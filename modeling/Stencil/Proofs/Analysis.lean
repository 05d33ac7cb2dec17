import Stencil.Proofs.MetaBlock
import Stencil.Proofs.Placement
import Stencil.Template

/-! Compiled programs: imports are gone from them, all files are known in them, and resolving
imports again does nothing. -/
namespace Stencil

open Stencil.Action

variable {host : Host} {c c' : Config} {j k : Journal}

/-- No import is in the node at any depth, and all files are known. -/
def Node.Resolved (n : Node) : Prop := n.Everywhere fun m => m.isUse = false ∧ m.KnowsFile

@[simp] theorem runs_inFile {κ α : Type} {cause : κ → Cause} {file : Text}
    {r : Except (Fault κ) α} {x : α} : (inFile cause file r).Runs j x k ↔ r = .ok x ∧ k = j := by
  cases r with
  | ok y => simp [inFile, eq_comm]
  | error f => simp [inFile]

/-- A source in which no block begins is read under the configuration that it is given. -/
theorem runs_read {source : Text} {tokens : List Token} {program : List Node}
    (hblocks : ∀ s ∈ source.tails, MetaBlock.block? s = none)
    (htokens : tokenize c.restoreForced.delimiters source = .ok tokens)
    (hprogram : parse c.restoreForced.delimiters tokens = .ok program) :
    (read source c).Runs j (program, c.restoreForced) j := by
  refine runs_bind.2 ⟨_, j, runs_preprocess hblocks, ?_⟩
  refine runs_bind.2 ⟨tokens, j, runs_inFile.2 ⟨htokens, rfl⟩, ?_⟩
  exact runs_bind.2 ⟨program, j, runs_inFile.2 ⟨hprogram, rfl⟩, runs_pure.2 ⟨rfl, rfl⟩⟩

theorem runs_read_steps {source : Text} {program : List Node}
    (h : (read source c).Runs j (program, c') k) : ∃ rest tokens,
      tokenize c'.delimiters rest = .ok tokens ∧ parse c'.delimiters tokens = .ok program := by
  obtain ⟨⟨rest, c₁⟩, i, -, h⟩ := runs_bind.1 h
  obtain ⟨tokens, i', htokens, h⟩ := runs_bind.1 h
  obtain ⟨program', i'', hparse, h⟩ := runs_bind.1 h
  obtain ⟨hp, -⟩ := runs_pure.1 h
  obtain ⟨rfl, rfl⟩ := Prod.mk.inj hp
  exact ⟨rest, tokens, (runs_inFile.1 htokens).1, (runs_inFile.1 hparse).1⟩

theorem read_confines {source : Text} {program : List Node}
    (h : (read source c).Runs j (program, c') k) :
    ∀ n ∈ program, n.Everywhere Node.Confines := by
  obtain ⟨_, _, -, hparse⟩ := runs_read_steps h
  exact parse_confines hparse

theorem read_knowsNoFile {source : Text} {program : List Node}
    (h : (read source c).Runs j (program, c') k) :
    ∀ n ∈ program, n.Everywhere Node.KnowsNoFile := by
  obtain ⟨_, _, -, hparse⟩ := runs_read_steps h
  exact parse_knowsNoFile hparse

/-- An import brings in nothing, or the program of the content that was found. -/
theorem Use.resolve_cases {u : Use} {nested : Text → Config → List Text → Action (List Node)}
    {chain : List Text} {ns : List Node} (h : (u.resolve host c nested chain).Runs j ns k) :
    ns = [] ∨ ∃ content target overrides i, ∃ found : Found,
      (nested content (c.forImport target found.directory overrides)
        (chain ++ [found.key])).Runs i ns k := by
  unfold resolve at h
  split at h
  · obtain ⟨_, i, -, h⟩ := runs_bind.1 h
    exact .inl (runs_pure.1 h).1
  obtain ⟨target?, i, -, h⟩ := runs_bind.1 h
  split at h
  · next target =>
    obtain ⟨wanted, i₁, -, h⟩ := runs_bind.1 h
    obtain ⟨overrides, i₂, -, h⟩ := runs_bind.1 h
    obtain ⟨found?, i₃, -, h⟩ := runs_bind.1 h
    split at h
    · next found =>
      obtain ⟨_, i₄, -, h⟩ := runs_bind.1 h
      obtain ⟨content, i₅, -, h⟩ := runs_bind.1 h
      obtain ⟨_, i₆, -, h⟩ := runs_bind.1 h
      exact .inr ⟨content, target, overrides, i₆, found, runs_within.1 h⟩
    · exact .inl (runs_pure.1 h).1
  · exact .inl (runs_pure.1 h).1

/-- Where imports are statements and what they bring in is resolved, resolving them leaves none. -/
theorem resolveImports_resolved {nested : Text → Config → List Text → Action (List Node)}
    {chain : List Text} {program ns : List Node}
    (hp : ∀ n ∈ program, n.Everywhere Node.Confines)
    (hnested : ∀ t c chain j ns k, (nested t c chain).Runs j ns k → ∀ n ∈ ns, n.Resolved)
    (h : (resolveImports host c nested chain program).Runs j ns k) : ∀ n ∈ ns, n.Resolved := by
  obtain ⟨imported, i, himported, h⟩ := runs_bind.1 h
  obtain ⟨rfl, -⟩ := runs_pure.1 h
  intro n hn
  obtain hn | hn := List.mem_append.1 hn
  · obtain ⟨ns, hns, hn⟩ := List.mem_flatten.1 hn
    refine forall_mem_of_runs_mapM (P := fun ns => ∀ n ∈ ns, n.Resolved) himported ?_ ns hns n hn
    intro u _ j ns k hu
    obtain rfl | ⟨content, target, overrides, i, found, hu⟩ := Use.resolve_cases hu
    · simp
    · exact hnested _ _ _ _ _ _ hu
  · simp only [List.mem_map, List.mem_filter] at hn
    obtain ⟨_, ⟨⟨m, hm, rfl⟩, hnot⟩, rfl⟩ := hn
    have hconfines := Node.everywhere_confines_stamp c.fileName (hp m hm)
    have hnone := Node.everywhere_not_isUse_withoutUses hconfines (by simpa using hnot)
    have hknown := Node.everywhere_knowsFile_withoutUses
      (Node.everywhere_knowsFile_stamp c.fileName m)
    exact fun q hq => ⟨hnone q hq, hknown q hq⟩

theorem compileImport_resolved (depth : Nat) {t : Text} {chain : List Text} {ns : List Node}
    (h : (compileImport host depth t c chain).Runs j ns k) : ∀ n ∈ ns, n.Resolved := by
  induction depth generalizing t c chain j ns k with
  | zero => exact absurd h runs_throw
  | succ depth ih =>
    obtain ⟨⟨program, c₁⟩, i, hread, h⟩ := runs_bind.1 h
    exact resolveImports_resolved (read_confines hread) (fun _ _ _ _ _ _ hn => ih hn) h

/-- A program without imports whose files are known is left as it is. -/
theorem resolveImports_eq_self {nested : Text → Config → List Text → Action (List Node)}
    {chain : List Text} {program : List Node} (h : ∀ n ∈ program, n.Resolved) (j : Journal) :
    (resolveImports host c nested chain program).Runs j program j := by
  have hno : ∀ n ∈ program, n.Everywhere fun m => m.isUse = false :=
    fun n hn => (h n hn).imp fun _ hm => hm.1
  have fixed : ∀ f : Node → Node, (∀ n ∈ program, f n = n) → program.map f = program :=
    fun f hf => (List.map_congr_left hf).trans (List.map_id' program)
  have hstamped : program.map (Node.stamp c.fileName) = program :=
    fixed _ fun n hn => Node.stamp_eq_self ((h n hn).imp fun _ hm => hm.2)
  have huses : program.flatMap Node.uses = [] :=
    List.flatMap_eq_nil_iff.2 fun n hn => Node.uses_eq_nil (hno n hn)
  have hfilter : program.filter (!·.isUse) = program :=
    List.filter_eq_self.2 fun n hn => by simp [(hno n hn).self]
  have hleft : program.map Node.withoutUses = program :=
    fixed _ fun n hn => Node.withoutUses_eq_self (hno n hn)
  unfold resolveImports
  simp only [hstamped, huses, hfilter, hleft]
  exact runs_pure.2 ⟨rfl, rfl⟩

/-- A compiled program holds no import and knows all its files, so that resolving imports again does
nothing, on any host. -/
theorem analyze_compile {source : Text} {program : List Node}
    (h : (compile host source c).Runs j (program, c') k) :
    (∀ n ∈ program, n.Everywhere fun m => m.isUse = false ∧ m.KnowsFile) ∧
      ∀ (later : Host) (c₂ : Config) (i : Journal),
        (analyze later c₂ program).Runs i program i := by
  obtain ⟨⟨program₀, c₀⟩, i, hread, h⟩ := runs_bind.1 h
  obtain ⟨ns, i', hanalyze, h⟩ := runs_bind.1 h
  obtain ⟨hp, -⟩ := runs_pure.1 h
  obtain ⟨rfl, rfl⟩ := Prod.mk.inj hp
  have hresolved : ∀ n ∈ program, n.Resolved :=
    resolveImports_resolved (read_confines hread)
      (fun _ _ _ _ _ _ hn => compileImport_resolved _ hn) hanalyze
  exact ⟨hresolved, fun later c₂ i => resolveImports_eq_self hresolved i⟩

/-- An argument loses its import, and the content of the file stands in front. -/
theorem analyze_compile_argument :
    ∃ (host : Host) (program : List Node) (k : Journal),
      (compile host "\\x\x7ba\\use[fileEncoding=latin1]{b}\x7d".toList .initial).Runs .empty
        (program, .initial) k ∧
      (∀ n ∈ program, n.Everywhere fun m => m.isUse = false ∧ m.KnowsFile) ∧
      ∀ (later : Host) (c₂ : Config) (i : Journal),
        (analyze later c₂ program).Runs i program i := by
  let host : Host := .offline fun _ => .ok [99]
  let inner : Config :=
    Config.initial.forImport ['b'] ['.'] [(Setting.fileEncoding, "latin1".toList)]
  have hinner : inner.restoreForced.delimiters = Config.initial.delimiters := rfl
  have hfile : tokenize inner.restoreForced.delimiters ['c'] =
      .ok (Token.place .start [⟨.raw, ['c']⟩]) := by
    rw [hinner, Config.delimiters_initial]
    cbv
  have himported : ∀ chain j, (compileImport host 1 ['c'] inner chain).Runs j
      [.mk (.raw ['c']) ⟨⟨0, 0⟩, some ['b']⟩] j :=
    fun chain j => runs_bind.2 ⟨_, j, runs_read (by decide) hfile rfl, rfl⟩
  have htemplate : tokenize Config.initial.delimiters
      "\\x\x7ba\\use[fileEncoding=latin1]{b}\x7d".toList = .ok (Token.place .start
        [⟨.escape, ['\\']⟩, ⟨.commandName, ['x']⟩, ⟨.argStart, ['{']⟩, ⟨.raw, ['a']⟩,
          ⟨.escape, ['\\']⟩, ⟨.commandName, "use".toList⟩, ⟨.paramStart, ['[']⟩,
          ⟨.paramKey, Setting.fileEncoding⟩, ⟨.paramAssign, ['=']⟩, ⟨.raw, "latin1".toList⟩,
          ⟨.paramEnd, [']']⟩, ⟨.argStart, ['{']⟩, ⟨.raw, ['b']⟩, ⟨.argEnd, ['}']⟩,
          ⟨.argEnd, ['}']⟩]) := by
    rw [Config.delimiters_initial]
    cbv
  let target : Node := .mk (.group [.mk (.raw ['b']) ⟨⟨0, 30⟩, none⟩]) ⟨⟨0, 29⟩, none⟩
  let encoding : Node :=
    .mk (.group [.mk (.raw "latin1".toList) ⟨⟨0, 22⟩, none⟩]) ⟨⟨0, 21⟩, none⟩
  let use : Node :=
    .mk (.use target none (some ⟨[(Setting.fileEncoding, some encoding)], ⟨⟨0, 8⟩, none⟩⟩))
      ⟨⟨0, 4⟩, none⟩
  let argument : Node := .mk (.group [.mk (.raw ['a']) ⟨⟨0, 3⟩, none⟩, use]) ⟨⟨0, 2⟩, none⟩
  let command : Node := .mk (.call ['x'] none [argument]) ⟨⟨0, 0⟩, none⟩
  have hread : (read "\\x\x7ba\\use[fileEncoding=latin1]{b}\x7d".toList .initial).Runs .empty
      ([command], .initial) .empty := runs_read (by decide) htemplate rfl
  let l : Location := ⟨⟨0, 4⟩, some "stdin".toList⟩
  let k : Journal :=
    ((Journal.empty.call (.probe ['b'] true)).call (.read ['b'])).note (.importing ['b'] true) l
  have hresolve : ∀ u ∈ (use.stamp "stdin".toList).uses,
      (u.resolve host .initial (compileImport host 1) ["stdin".toList]).Runs .empty
        [.mk (.raw ['c']) ⟨⟨0, 0⟩, some ['b']⟩] k := by
    intro u hu
    rw [List.mem_singleton.1 hu]
    exact runs_within.2 (himported ["stdin".toList, ['b']] k)
  have hanalyze : (analyze host .initial [command]).Runs .empty _ k :=
    runs_bind.2 ⟨_, _, runs_bind.2 ⟨_, _, hresolve _ List.mem_cons_self, runs_pure.2 ⟨rfl, rfl⟩⟩,
      runs_pure.2 ⟨rfl, rfl⟩⟩
  have h : (compile host "\\x\x7ba\\use[fileEncoding=latin1]{b}\x7d".toList .initial).Runs .empty
      (_, .initial) k :=
    runs_bind.2 ⟨_, _, hread, runs_bind.2 ⟨_, _, hanalyze, runs_pure.2 ⟨rfl, rfl⟩⟩⟩
  exact ⟨host, _, k, h, analyze_compile h⟩

end Stencil
