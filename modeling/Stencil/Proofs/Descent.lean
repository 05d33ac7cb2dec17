import Stencil.Proofs.Analysis
import Stencil.Proofs.Effects

/-! The way of a compilation from a template down into what it imports: which import comes next,
which content is entered, and that how deep imports may nest changes nothing but whether the
compilation ends. -/
namespace Stencil

open Stencil.Action

/-- The content of a task as a program, with imports nested as deep as is said. -/
def Task.compile (host : Host) (depth : Nat) (t : Task) : Action (List Node) :=
  compileImport host depth t.content t.config t.chain

/-- What a template is to be compiled as: it is being imported itself. -/
def Task.root (source : Text) (c : Config) : Task :=
  ⟨source, c, [importKey (c.forSource source).filePath (c.forSource source).fileName]⟩

/-- The imports of a program in the order in which they are resolved. -/
def importsOf (c : Config) (program : List Node) : List Use :=
  (program.map (Node.stamp c.fileName)).flatMap Node.uses

section Depth

variable {host : Host} {c : Config} {u : Use} {t : Task} {j k : Journal}

theorem Use.resolve_refines {nested nested' : Text → Config → List Text → Action (List Node)}
    (chain : List Text) (h : ∀ content c chain, Refines (nested content c chain)
      (nested' content c chain)) :
    Refines (u.resolve host c nested chain) (u.resolve host c nested' chain) := by
  rw [resolve_eq, resolve_eq]
  refine (Refines.refl _).bind fun a? => ?_
  cases a? with
  | none => exact .refl _
  | some a => exact (Refines.refl _).bind fun t => .within _ (h t.content t.config t.chain)

/-- Where imports may nest one level deeper, nothing changes that came to an end before. -/
theorem compileImport_refines_succ (depth : Nat) (content : Text) (c : Config)
    (chain : List Text) :
    Refines (compileImport host depth content c chain)
      (compileImport host (depth + 1) content c chain) := by
  induction depth generalizing content c chain with
  | zero =>
    intro j
    exact .inl ⟨j, stops_throw.2 ⟨rfl, rfl⟩⟩
  | succ depth ih =>
    refine (Refines.refl _).bind fun p => ?_
    refine (Refines.mapM _ fun u => ?_).bind fun _ => .refl _
    exact Use.resolve_refines chain ih

theorem Task.compile_refines {d e : Nat} (h : d ≤ e) :
    Refines (t.compile host d) (t.compile host e) := by
  induction h with
  | refl => exact .refl _
  | step _ ih =>
    intro j
    obtain hstop | heq := ih j
    · exact .inl hstop
    · obtain ⟨k, hk⟩ | heq' := compileImport_refines_succ _ t.content t.config
        t.chain j
      · exact .inl ⟨k, heq.trans hk⟩
      · exact .inr (heq.trans heq')

theorem Task.runs_unique {d e : Nat} {ns ms : List Node} {i : Journal}
    (h : (t.compile host d).Runs j ns k) (h' : (t.compile host e).Runs j ms i) :
    ns = ms ∧ k = i := by
  obtain hde | hed := Nat.le_total d e
  · exact ((compile_refines hde).runs h).unique h'
  · exact h.unique ((compile_refines hed).runs h')

end Depth

/-- The way into imported content: the import, its target, and the configuration of its file. -/
structure Passage where
  use : Use
  target : Text
  importer : Config

namespace Passage

/-- The key of the content. -/
def key (p : Passage) : Text := p.importer.keyOf p.target

/-- The directory of the content. -/
def directory (p : Passage) : Text := p.importer.directoryOf p.target

/-- How a failure in the content shows outside. -/
def asInclude (p : Passage) : Include := ⟨p.target, p.use.location⟩

end Passage

/-- While `t` is compiled from `j` on, the import `u` comes next at `k`, under `c`. -/
inductive Comes (host : Host) (t : Task) (j : Journal) : Use → Config → Journal → Prop where
  | intro {program : List Node} {c : Config} {before after : List Use} {u : Use}
      {contributions : List (List Node)} {depth : Nat} {i k : Journal}
      (hread : (read t.content t.config).Runs j (program, c) i)
      (huses : importsOf c program = before ++ u :: after)
      (hbefore : (before.mapM fun (v : Use) =>
        v.resolve host c (compileImport host depth) t.chain).Runs i contributions k) :
      Comes host t j u c k

/-- While `t` is compiled from `j` on, the content of an import is entered as a task, from `k`
on. -/
inductive Enters (host : Host) (t : Task) (j : Journal) : Passage → Task → Journal → Prop where
  | intro {u : Use} {c : Config} {a : Aim} {t' : Task} {i i' k : Journal}
      (hcomes : Comes host t j u c i) (haim : (u.aim host c).Runs i (some a) i')
      (henter : (u.enter host c t.chain a).Runs i' t' k) :
      Enters host t j ⟨u, a.target, c⟩ t' k

/-- Compiling a task from `j` on comes to another one at `k`, by a path of imports. -/
inductive Reaches (host : Host) : Task → Journal → List Passage → Task → Journal → Prop where
  | here (t : Task) (j : Journal) : Reaches host t j [] t j
  | through {t t₁ t₂ : Task} {j j₁ j₂ : Journal} {p : Passage} {path : List Passage}
      (first : Enters host t j p t₁ j₁) (rest : Reaches host t₁ j₁ path t₂ j₂) :
      Reaches host t j (p :: path) t₂ j₂

/-- A template without blocks is known by the name that its configuration gives it. -/
theorem Task.root_eq {source : Text} {c : Config}
    (h : ∀ s ∈ source.tails, MetaBlock.block? s = none) :
    root source c =
      ⟨source, c, [importKey c.restoreForced.filePath c.restoreForced.fileName]⟩ := by
  have hconfig := preprocess_forSource (runs_preprocess h : (preprocess source c).Runs .empty _ _)
  rw [root, ← hconfig]

section Reading

variable {host : Host} {c : Config} {u : Use} {t : Task} {j k : Journal}

theorem read_forSource {source : Text} {program : List Node} {c' : Config}
    (h : (read source c).Runs j (program, c') k) : c' = c.forSource source := by
  obtain ⟨⟨rest, c₁⟩, i, hpre, h₁⟩ := runs_bind.1 h
  obtain ⟨tokens, i', -, h₂⟩ := runs_bind.1 h₁
  obtain ⟨program', i'', -, h₃⟩ := runs_bind.1 h₂
  obtain ⟨-, rfl⟩ := Prod.mk.inj (runs_pure.1 h₃).1
  exact preprocess_forSource hpre

theorem Comes.first {program : List Node} {after : List Use}
    (hread : (read t.content t.config).Runs j (program, c) k)
    (huses : importsOf c program = u :: after) : Comes host t j u c k := by
  have hnone : (([] : List Use).mapM fun (v : Use) =>
      v.resolve host c (compileImport host 0) t.chain).Runs k [] k := runs_pure.2 ⟨rfl, rfl⟩
  exact .intro hread (huses.trans (List.nil_append _).symm) hnone

theorem Comes.eq_forSource (h : Comes host t j u c k) : c = t.config.forSource t.content := by
  obtain ⟨hread, -, -⟩ := h
  exact read_forSource hread

theorem Enters.config_eq {p : Passage} {t' : Task} (h : Enters host t j p t' k) :
    p.importer = t.config.forSource t.content ∧
      t'.config = p.importer.forImport p.target p.directory p.use.settings := by
  obtain ⟨hcomes, haim, henter⟩ := h
  obtain ⟨-, -, hconfig, -⟩ := Use.runs_enter henter
  refine ⟨hcomes.eq_forSource, ?_⟩
  rw [hconfig, (Use.runs_aim_some haim).1.overrides]
  rfl

theorem Enters.chain_eq {p : Passage} {t' : Task} (h : Enters host t j p t' k) :
    p.key ∉ t.chain ∧ t'.chain = t.chain ++ [p.key] := by
  obtain ⟨hcomes, haim, henter⟩ := h
  obtain ⟨hnot, -, -, hchain⟩ := Use.runs_enter henter
  exact ⟨hnot, hchain⟩

/-- Resolving an import that is entered is compiling its content, whatever it is compiled by. -/
theorem Enters.outcome_resolve {p : Passage} {t' : Task} (h : Enters host t j p t' k) :
    ∃ i, Comes host t j p.use p.importer i ∧
      ∀ nested, (p.use.resolve host p.importer nested t.chain).outcome i =
        (within ⟨p.target, p.use.location⟩
          (nested t'.content t'.config t'.chain)).outcome k := by
  obtain ⟨hcomes, haim, henter⟩ := h
  refine ⟨_, hcomes, fun nested => ?_⟩
  rw [Use.resolve_eq, outcome_bind, show Action.outcome _ _ = _ from haim]
  dsimp only
  rw [outcome_bind, show Action.outcome _ _ = _ from henter]

end Reading

/-- A template is compiled like content that is imported. -/
theorem compile_eq (source : Text) : compile host source c = (do
    let program ← (Task.root source c).compile host (host.nesting + 2)
    pure (program, c.forSource source)) := by
  refine Action.ext fun j => ?_
  unfold compile Task.compile compileImport Task.root analyze
  simp only [outcome_bind]
  obtain ⟨⟨program, c'⟩, k, hread⟩ | ⟨s, k, hread⟩ := runs_or_stops (read source c) j
  · obtain rfl := read_forSource hread
    rw [show (read source c).outcome j = _ from hread]
  · rw [show (read source c).outcome j = _ from hread]

theorem runs_compile {source : Text} {c' : Config} {program : List Node} {j k : Journal} :
    (compile host source c).Runs j (program, c') k ↔
      c' = c.forSource source ∧
        ((Task.root source c).compile host (host.nesting + 2)).Runs j program k := by
  simp only [compile_eq, runs_bind, runs_pure, Prod.mk.injEq]
  constructor
  · rintro ⟨_, _, h, ⟨rfl, rfl⟩, rfl⟩
    exact ⟨rfl, h⟩
  · rintro ⟨rfl, h⟩
    exact ⟨_, _, h, ⟨rfl, rfl⟩, rfl⟩

theorem stops_root {source : Text} {s : Stop} {j k : Journal} :
    (compile host source c).Stops j s k ↔
      ((Task.root source c).compile host (host.nesting + 2)).Stops j s k := by
  rw [compile_eq, stops_bind]
  simp

section Results

variable {host : Host} {c : Config} {u : Use} {t t' : Task} {p : Passage} {q : List Node}
  {i j k : Journal} {depth : Nat}

/-- The imports before one that comes next are resolved alike at every depth that is deep enough. -/
theorem Comes.runs_before (h : Comes host t j u c i) (depth : Nat) :
    ∃ program before after contributions i₀, (read t.content t.config).Runs j (program, c) i₀ ∧
      importsOf c program = before ++ u :: after ∧
      ((∃ k, (before.mapM fun (v : Use) =>
          v.resolve host c (compileImport host depth) t.chain).Stops i₀ .exhausted k) ∨
        (before.mapM fun (v : Use) => v.resolve host c (compileImport host depth) t.chain).Runs
          i₀ contributions i) := by
  obtain ⟨hread, huses, hbefore⟩ := h
  next program before after contributions depth₀ i₀ =>
  refine ⟨program, before, after, contributions, i₀, hread, huses, ?_⟩
  have refines : ∀ {d e : Nat}, d ≤ e → Refines
      (before.mapM fun (v : Use) => v.resolve host c (compileImport host d) t.chain)
      (before.mapM fun (v : Use) => v.resolve host c (compileImport host e) t.chain) :=
    fun hde => .mapM _ fun v => Use.resolve_refines _ fun content c chain =>
      Task.compile_refines (t := ⟨content, c, chain⟩) hde
  have hdeep := (refines (Nat.le_max_right depth depth₀)).runs hbefore
  obtain hstops | heq := refines (Nat.le_max_left depth depth₀) i₀
  · exact .inl hstops
  · exact .inr (heq.trans hdeep)

/-- An import that comes next is resolved, and becomes a part of the result. -/
theorem Comes.runs (h : Comes host t j u c i) (hq : (t.compile host (depth + 1)).Runs j q k) :
    ∃ ns k', (u.resolve host c (compileImport host depth) t.chain).Runs i ns k' ∧ ns <:+: q ∧
      Journal.Grows (fun _ => True) k' k := by
  obtain ⟨program, before, after, contributions, i₀, hread, huses, hbefore⟩ := h.runs_before depth
  obtain ⟨⟨program', c'⟩, i₁, hread', h₁⟩ := runs_bind.1 hq
  obtain ⟨hprogram, rfl⟩ := hread.unique hread'
  obtain ⟨rfl, rfl⟩ := Prod.mk.inj hprogram
  obtain ⟨all, i₂, hall, h₂⟩ := runs_bind.1 h₁
  obtain ⟨rfl, rfl⟩ := runs_pure.1 h₂
  have hstamped : (program.map (Node.stamp c.fileName)).flatMap Node.uses =
      before ++ u :: after := huses
  rw [hstamped, runs_mapM_append] at hall
  obtain ⟨first, i₃, rest, hfirst, hrest, rfl⟩ := hall
  obtain ⟨k', hk'⟩ | hbefore := hbefore
  · exact absurd hk' hfirst.not_stops
  · obtain ⟨rfl, rfl⟩ := hbefore.unique hfirst
    cases runs_mapM.1 hrest with
    | cons head tail =>
      refine ⟨_, _, head, ?_, ?_⟩
      · rw [List.flatten_append, List.flatten_cons, List.append_assoc, List.append_assoc]
        exact ⟨_, _, List.append_assoc _ _ _⟩
      · have hafter : Obeys (fun _ => True) (fun _ => True) (after.mapM fun (v : Use) =>
            v.resolve host c (compileImport host depth) t.chain) :=
          .mapM (fun v => v.obeys_resolve _ (obeys_compileImport depth)) _
        exact hafter.runs (runs_mapM.2 tail)

theorem Enters.runs (h : Enters host t j p t' i) (hq : (t.compile host (depth + 1)).Runs j q k) :
    ∃ ns k', (t'.compile host depth).Runs i ns k' ∧ ns <:+: q ∧
      Journal.Grows (fun _ => True) k' k := by
  obtain ⟨hcomes, haim, henter⟩ := h
  obtain ⟨ns, k', hresolve, hns⟩ := hcomes.runs hq
  rw [Use.resolve_eq] at hresolve
  obtain ⟨a?, i₁, haim', h₁⟩ := runs_bind.1 hresolve
  obtain ⟨rfl, rfl⟩ := haim.unique haim'
  obtain ⟨t'', i₂, henter', h₂⟩ := runs_bind.1 h₁
  obtain ⟨rfl, rfl⟩ := henter.unique henter'
  exact ⟨ns, k', runs_within.1 h₂, hns⟩

/-- The compilation comes to each passage of a path on its way. -/
theorem Reaches.exists_enters {before after : List Passage}
    (h : Reaches host t j (before ++ p :: after) t' i) :
    ∃ t₁ i₁ t₂ i₂, Reaches host t j before t₁ i₁ ∧ Enters host t₁ i₁ p t₂ i₂ ∧
      Reaches host t₂ i₂ after t' i := by
  induction before generalizing t j with
  | nil =>
    obtain _ | ⟨first, rest⟩ := h
    exact ⟨t, j, _, _, .here t j, first, rest⟩
  | cons q before ih =>
    obtain _ | ⟨first, rest⟩ := h
    obtain ⟨t₁, i₁, t₂, i₂, hbefore, henters, hafter⟩ := ih rest
    exact ⟨t₁, i₁, t₂, i₂, .through first hbefore, henters, hafter⟩

/-- What a compilation that succeeds comes to is compiled, and becomes a part of the result. -/
theorem Reaches.runs {path : List Passage} (h : Reaches host t j path t' i)
    (hq : (t.compile host depth).Runs j q k) :
    ∃ depth' ns k', (t'.compile host (depth' + 1)).Runs i ns k' ∧ ns <:+: q := by
  induction h generalizing depth q k with
  | here t j =>
    cases depth with
    | zero => exact absurd hq runs_throw
    | succ depth => exact ⟨depth, q, k, hq, List.infix_refl q⟩
  | through first _ ih =>
    cases depth with
    | zero => exact absurd hq runs_throw
    | succ depth =>
      obtain ⟨ns, k', hns, hinfix, -⟩ := first.runs hq
      obtain ⟨depth', ns', k'', hns', hinfix'⟩ := ih hns
      exact ⟨depth', ns', k'', hns', hinfix'.trans hinfix⟩

theorem Reaches.grows {path : List Passage} (h : Reaches host t j path t' i)
    (hq : (t.compile host depth).Runs j q k) {d : Nat} {ns : List Node} {k' : Journal}
    (hns : (t'.compile host d).Runs i ns k') : Journal.Grows (fun _ => True) k' k := by
  induction h generalizing depth q k with
  | here t j => exact (Task.runs_unique hns hq).2 ▸ .refl _
  | through first _ ih =>
    cases depth with
    | zero => exact absurd hq runs_throw
    | succ depth =>
      obtain ⟨_, k₁, hfirst, -, hgrows⟩ := first.runs hq
      exact (ih hfirst hns).trans hgrows

theorem Task.comes_of_mem {program : List Node} {i₀ : Journal}
    (hq : (t.compile host (depth + 1)).Runs j q k)
    (hread : (read t.content t.config).Runs j (program, c) i₀) (hu : u ∈ importsOf c program) :
    ∃ i, Comes host t j u c i := by
  obtain ⟨⟨program', c'⟩, i₁, hread', h₁⟩ := runs_bind.1 hq
  obtain ⟨hprogram, rfl⟩ := hread.unique hread'
  obtain ⟨rfl, rfl⟩ := Prod.mk.inj hprogram
  obtain ⟨all, i₂, hall, -⟩ := runs_bind.1 h₁
  obtain ⟨before, after, huses⟩ := List.append_of_mem hu
  have hstamped : (program.map (Node.stamp c.fileName)).flatMap Node.uses =
      before ++ u :: after := huses
  rw [hstamped, runs_mapM_append] at hall
  obtain ⟨first, i, -, hfirst, -, -⟩ := hall
  exact ⟨i, .intro hread huses hfirst⟩

end Results

end Stencil
