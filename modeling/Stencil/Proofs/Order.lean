import Stencil.Proofs.Layout
import Stencil.Proofs.Splicing

/-! In which order imports contribute: in the order of the text, except where a node has imports in
its parameter list and other parts, or in the list in another order than in the text. -/
namespace Stencil

open Stencil.Action

section Pairs

variable {α β : Type}

theorem pair_sublist_append {a b : α} {l l' : List α} : [a, b].Sublist (l ++ l') ↔
    [a, b].Sublist l ∨ a ∈ l ∧ b ∈ l' ∨ [a, b].Sublist l' := by
  induction l with
  | nil => simp
  | cons c l ih =>
    simp only [List.cons_append, List.cons_sublist_cons', ih, List.singleton_sublist,
      List.mem_append, List.mem_cons]
    tauto

theorem pair_sublist_flatMap {a b : β} {f : α → List β} {l : List α} :
    [a, b].Sublist (l.flatMap f) ↔
      (∃ x ∈ l, [a, b].Sublist (f x)) ∨ ∃ x y, [x, y].Sublist l ∧ a ∈ f x ∧ b ∈ f y := by
  induction l with
  | nil => simp
  | cons x l ih =>
    simp only [List.flatMap_cons, pair_sublist_append, ih, List.mem_flatMap,
      List.cons_sublist_cons', List.singleton_sublist, List.exists_mem_cons_iff]
    constructor
    · rintro (h | ⟨ha, y, hy, hb⟩ | ⟨y, hy, h⟩ | ⟨y, z, hyz, ha, hb⟩)
      · exact .inl (.inl h)
      · exact .inr ⟨x, y, .inr ⟨rfl, hy⟩, ha, hb⟩
      · exact .inl (.inr ⟨y, hy, h⟩)
      · exact .inr ⟨y, z, .inl hyz, ha, hb⟩
    · rintro ((h | ⟨y, hy, h⟩) | ⟨y, z, hyz | ⟨rfl, hz⟩, ha, hb⟩)
      · exact .inl h
      · exact .inr (.inr (.inl ⟨y, hy, h⟩))
      · exact .inr (.inr (.inr ⟨y, z, hyz, ha, hb⟩))
      · exact .inr (.inl ⟨ha, z, hz, hb⟩)

theorem pair_sublist_total {a b : α} {l : List α} (ha : a ∈ l) (hb : b ∈ l) (hne : a ≠ b) :
    [a, b].Sublist l ∨ [b, a].Sublist l := by
  obtain ⟨l₁, l₂, rfl⟩ := List.append_of_mem ha
  obtain hb | hb := List.mem_append.1 hb
  · exact .inr (pair_sublist_append.2 (.inr (.inl ⟨hb, List.mem_cons_self⟩)))
  · obtain hb | hb := List.mem_cons.1 hb
    · exact absurd hb.symm hne
    · refine .inl (pair_sublist_append.2 (.inr (.inr ?_)))
      exact List.cons_sublist_cons.2 (List.singleton_sublist.2 hb)

end Pairs

namespace Node

/-- The walk over `n` comes to `m`. It does not go into imports. -/
inductive Met (m : Node) : Node → Prop where
  | here (h : m.isUse = false) : Met m m
  | inside {n q : Node} (h : n.isUse = false) (hq : q ∈ n.form.parts) (hm : Met m q) : Met m n

/-- The walk over a node meets `v` before `u` because parameter values come last, in the order of
their list. -/
inductive Inverts (v u : Use) (n : Node) : Prop where
  | params {p : Params Node} {q x : Node} (hp : n.form.params? = some p) (hq : q ∈ n.form.ownParts)
      (hx : x ∈ p.values) (hv : v ∈ q.uses) (hu : u ∈ x.uses)
  | entries {p : Params Node} {x y : Node} (hp : n.form.params? = some p)
      (hxy : [x, y].Sublist p.values) (hv : v ∈ x.uses) (hu : u ∈ y.uses)

variable {m n : Node} {u v : Use} {file : Text}

theorem uses_eq_flatMap (h : n.isUse = false) : n.uses = n.form.parts.flatMap uses := by
  obtain ⟨form, l⟩ := n
  exact uses_mk form l h

theorem mem_positions (h : u ∈ n.uses) : u.location.position ∈ n.positions :=
  List.mem_map_of_mem h

theorem sublist_uses_of_met (hm : m.Met n) (h : m.Inverts v u) : [v, u].Sublist n.uses := by
  induction hm with
  | here hm =>
    rw [uses_eq_flatMap hm, pair_sublist_flatMap]
    obtain ⟨hp, hq, hx, hv, hu⟩ | ⟨hp, hxy, hv, hu⟩ := h
    · refine .inr ⟨_, _, ?_, hv, hu⟩
      rw [Form.parts, hp, pair_sublist_append]
      exact .inr (.inl ⟨hq, hx⟩)
    · refine .inr ⟨_, _, ?_, hv, hu⟩
      rw [Form.parts, hp, pair_sublist_append]
      exact .inr (.inr hxy)
  | inside hn hq _ ih =>
    rw [uses_eq_flatMap hn, pair_sublist_flatMap]
    exact .inl ⟨_, hq, ih⟩

/-- Where the walk meets first what stands later, a node on its way inverts them. -/
theorem met_of_sublist_uses (hordered : n.Everywhere Ordered) (h : [v, u].Sublist n.uses)
    (hlt : u.location.position < v.location.position) : ∃ m : Node, m.Met n ∧ m.Inverts v u := by
  induction n using Node.induction with
  | step form l ih =>
    cases huse : (mk form l).isUse with
    | true =>
      cases form with
      | use target hash params =>
        rw [uses_use] at h
        exact absurd h.length_le (by simp)
      | _ => cases huse
    | false =>
      rw [uses_mk form l huse, pair_sublist_flatMap] at h
      obtain ⟨q, hq, h⟩ | ⟨x, y, hxy, hv, hu⟩ := h
      · obtain ⟨m, hm, hinverts⟩ := ih q hq (hordered.part hq) h
        exact ⟨m, .inside huse hq hm, hinverts⟩
      · refine ⟨mk form l, .here huse, ?_⟩
        rw [Form.parts, pair_sublist_append] at hxy
        obtain hxy | ⟨hx, hy⟩ | hxy := hxy
        · have hprecedes := List.pairwise_iff_forall_sublist.1 hordered.self hxy
          exact absurd (hprecedes _ (mem_positions hv) _ (mem_positions hu)) hlt.not_ge
        · cases hp : form.params? with
          | none => simp [hp] at hy
          | some p => exact .params hp hx (by simpa [hp] using hy) hv hu
        · cases hp : form.params? with
          | none => simp [hp] at hxy
          | some p => exact .entries hp (by simpa [hp] using hxy) hv hu

@[simp] theorem positions_stamp (file : Text) (n : Node) :
    (n.stamp file).positions = n.positions := by
  induction n using Node.induction with
  | step form l ih =>
    cases huse : (mk form l).isUse with
    | true =>
      cases form with
      | use target hash params =>
        rw [stamp_mk, Form.map, Form.mapLocation, positions, positions, uses_use, uses_use]
        rfl
      | _ => cases huse
    | false =>
      have hstamped : ((mk form l).stamp file).isUse = false := by rwa [isUse_stamp]
      rw [stamp_mk] at hstamped ⊢
      rw [positions_mk hstamped, positions_mk huse, Form.parts_mapLocation, Form.parts_map,
        List.flatMap_map]
      exact List.flatMap_congr ih

@[simp] theorem precedes_stamp : (m.stamp file).Precedes (n.stamp file) ↔ m.Precedes n := by
  simp [Precedes]

theorem everywhere_ordered_stamp (file : Text) (h : n.Everywhere Ordered) :
    (n.stamp file).Everywhere Ordered := by
  induction n using Node.induction with
  | step form l ih =>
    rw [stamp_mk, everywhere_iff]
    refine ⟨?_, fun q' hq => ?_⟩
    · have hself : form.ownParts.Pairwise Precedes := h.self
      rw [Ordered, form_mk, Form.ownParts_mapLocation, Form.ownParts_map, List.pairwise_map]
      simpa only [precedes_stamp] using hself
    · simp only [form_mk, Form.parts_mapLocation, Form.parts_map, List.mem_map] at hq
      obtain ⟨q, hq, rfl⟩ := hq
      exact ih q hq (h.part hq)

end Node

/-- A node of a program inverts two imports, of which `u` is the later one in the walk. -/
def Inverted (c : Config) (program : List Node) (v u : Use) : Prop :=
  ∃ n ∈ program.map (Node.stamp c.fileName), ∃ m : Node, m.Met n ∧ m.Inverts v u

section Order

variable {host : Host} {c c' : Config} {program q : List Node} {u v : Use} {lo hi : Position}
  {i j k : Journal}

theorem read_row {source : Text} (h : (read source c).Runs j (program, c') k) :
    ∃ lo hi, Row lo hi program := by
  obtain ⟨rest, tokens, htokens, hparse⟩ := runs_read_steps h
  obtain ⟨-, hplace⟩ := tokenize_eq_ok_iff.1 htokens
  exact parse_row (hplace ▸ Token.pairwise_place _ _) hparse

/-- The later one of two imports is met first exactly where a node inverts them. -/
theorem sublist_importsOf_iff (hrow : Row lo hi program)
    (hlt : u.location.position < v.location.position) :
    [v, u].Sublist (importsOf c program) ↔ Inverted c program v u := by
  constructor
  · intro h
    rw [importsOf, pair_sublist_flatMap] at h
    obtain ⟨n, hn, h⟩ | ⟨x, y, hxy, hv, hu⟩ := h
    · obtain ⟨n, hn', rfl⟩ := List.mem_map.1 hn
      exact ⟨_, hn, Node.met_of_sublist_uses
        (Node.everywhere_ordered_stamp c.fileName (hrow.ordered n hn')) h hlt⟩
    · have horder : (program.map (Node.stamp c.fileName)).Pairwise Node.Precedes := by
        rw [List.pairwise_map]
        simpa only [Node.precedes_stamp] using hrow.order
      have hprecedes := List.pairwise_iff_forall_sublist.1 horder hxy
      exact absurd (hprecedes _ (Node.mem_positions hv) _ (Node.mem_positions hu)) hlt.not_ge
  · rintro ⟨n, hn, m, hm, h⟩
    rw [importsOf, pair_sublist_flatMap]
    exact .inl ⟨n, hn, Node.sublist_uses_of_met hm h⟩

/-- Of two imports of a file, at any depth, the earlier one in the text contributes first, unless a
node inverts them; then the later one does. -/
theorem contributions_of_reaches {source : Text} {path : List Passage} {t : Task}
    (h : (compile host source c).Runs j (q, c') k)
    (hreaches : Reaches host (.root source c) j path t i) :
    ∃ program c₁ contributions residual i₁ i₂,
      (read t.content t.config).Runs i (program, c₁) i₁ ∧
      Each (fun u => u.Contributes host c₁ t.chain) i₁ (importsOf c₁ program) contributions i₂ ∧
      contributions.flatten ++ residual <:+: q ∧
      ∀ u ∈ importsOf c₁ program, ∀ v ∈ importsOf c₁ program,
        u.location.position < v.location.position →
          ¬ Inverted c₁ program v u ∧ [u, v].Sublist (importsOf c₁ program) ∧
            ¬ [v, u].Sublist (importsOf c₁ program) ∨
          Inverted c₁ program v u ∧ [v, u].Sublist (importsOf c₁ program) := by
  rw [compile_eq] at h
  obtain ⟨program₀, i₀, hroot, h₁⟩ := runs_bind.1 h
  obtain ⟨rfl, -⟩ := Prod.mk.inj (runs_pure.1 h₁).1
  obtain ⟨depth, ns, k', hns, hinfix⟩ := hreaches.runs hroot
  obtain ⟨⟨program, c₁⟩, i₁, hread, h₂⟩ := runs_bind.1 hns
  obtain ⟨contributions, i₂, hresolve, h₃⟩ := runs_bind.1 h₂
  obtain ⟨rfl, rfl⟩ := runs_pure.1 h₃
  refine ⟨program, c₁, contributions, _, i₁, k', hread, ?_, hinfix, fun u hu v hv hlt => ?_⟩
  · exact (runs_mapM.1 hresolve).imp fun u _ _ _ _ => Use.contributes_of_resolve
  obtain ⟨lo, hi, hrow⟩ := read_row hread
  have hiff := sublist_importsOf_iff (c := c₁) hrow hlt
  by_cases hinverted : Inverted c₁ program v u
  · exact .inr ⟨hinverted, hiff.2 hinverted⟩
  · have hnot : ¬ [v, u].Sublist (importsOf c₁ program) := fun h => hinverted (hiff.1 h)
    have hne : u ≠ v := by
      rintro rfl
      exact lt_irrefl _ hlt
    exact .inl ⟨hinverted, (pair_sublist_total hu hv hne).resolve_right hnot, hnot⟩

end Order

/-- A template imports one file in a parameter value, and another in an argument. -/
theorem runs_compile_value :
    ∃ (host : Host) (u v : Use) (program : List Node) (k : Journal),
      (read "\\x[k=\\use\x7ba\x7d]\x7b\\use\x7bb\x7d\x7d".toList .initial).Runs .empty
        (program, .initial) .empty ∧
      importsOf .initial program = [v, u] ∧ u.location.position < v.location.position ∧
      Each (fun w => w.Contributes host .initial
          (Task.root "\\x[k=\\use\x7ba\x7d]\x7b\\use\x7bb\x7d\x7d".toList .initial).chain)
        .empty [v, u] [[.mk (.raw ['B']) ⟨⟨0, 0⟩, some ['b']⟩],
          [.mk (.raw ['A']) ⟨⟨0, 0⟩, some ['a']⟩]] k ∧
      (compile host "\\x[k=\\use\x7ba\x7d]\x7b\\use\x7bb\x7d\x7d".toList .initial).Runs .empty
        ([.mk (.raw ['B']) ⟨⟨0, 0⟩, some ['b']⟩, .mk (.raw ['A']) ⟨⟨0, 0⟩, some ['a']⟩,
          .mk (.call ['x']
            (some ⟨[(['k'], some (.mk (.group []) ⟨⟨0, 4⟩, some "stdin".toList⟩))],
              ⟨⟨0, 2⟩, some "stdin".toList⟩⟩)
            [.mk (.group []) ⟨⟨0, 13⟩, some "stdin".toList⟩]) ⟨⟨0, 0⟩, some "stdin".toList⟩],
          .initial) k := by
  let host : Host := .offline fun path => .ok (if path = ['a'] then [65] else [66])
  let name : Text := "stdin".toList
  have htemplate : tokenize Config.initial.delimiters
      "\\x[k=\\use\x7ba\x7d]\x7b\\use\x7bb\x7d\x7d".toList = .ok (Token.place .start
        [⟨.escape, ['\\']⟩, ⟨.commandName, ['x']⟩, ⟨.paramStart, ['[']⟩, ⟨.paramKey, ['k']⟩,
          ⟨.paramAssign, ['=']⟩, ⟨.escape, ['\\']⟩, ⟨.commandName, "use".toList⟩,
          ⟨.argStart, ['{']⟩, ⟨.raw, ['a']⟩, ⟨.argEnd, ['}']⟩, ⟨.paramEnd, [']']⟩,
          ⟨.argStart, ['{']⟩, ⟨.escape, ['\\']⟩, ⟨.commandName, "use".toList⟩,
          ⟨.argStart, ['{']⟩, ⟨.raw, ['b']⟩, ⟨.argEnd, ['}']⟩, ⟨.argEnd, ['}']⟩]) := by
    rw [Config.delimiters_initial]
    cbv
  let targetA : Node := .mk (.group [.mk (.raw ['a']) ⟨⟨0, 10⟩, none⟩]) ⟨⟨0, 9⟩, none⟩
  let targetB : Node := .mk (.group [.mk (.raw ['b']) ⟨⟨0, 19⟩, none⟩]) ⟨⟨0, 18⟩, none⟩
  let value : Node := .mk (.group [.mk (.use targetA none none) ⟨⟨0, 5⟩, none⟩]) ⟨⟨0, 4⟩, none⟩
  let argument : Node :=
    .mk (.group [.mk (.use targetB none none) ⟨⟨0, 14⟩, none⟩]) ⟨⟨0, 13⟩, none⟩
  let command : Node :=
    .mk (.call ['x'] (some ⟨[(['k'], some value)], ⟨⟨0, 2⟩, none⟩⟩) [argument]) ⟨⟨0, 0⟩, none⟩
  have hread : (read "\\x[k=\\use\x7ba\x7d]\x7b\\use\x7bb\x7d\x7d".toList .initial).Runs .empty
      ([command], .initial) .empty := runs_read (by decide) htemplate rfl
  let u : Use := ⟨targetA.stamp name, none, none, ⟨⟨0, 5⟩, name⟩⟩
  let v : Use := ⟨targetB.stamp name, none, none, ⟨⟨0, 14⟩, name⟩⟩
  have huses : importsOf .initial [command] = [v, u] := rfl
  let inner (target : Text) : Config := Config.initial.forImport target ['.'] []
  have hinner : ∀ target, (inner target).restoreForced.delimiters = Config.initial.delimiters :=
    fun _ => rfl
  have htokensA : tokenize Config.initial.delimiters ['A'] =
      .ok (Token.place .start [⟨.raw, ['A']⟩]) := by
    rw [Config.delimiters_initial]
    cbv
  have hreadA : ∀ j, (read ['A'] (inner ['a'])).Runs j
      ([.mk (.raw ['A']) ⟨⟨0, 0⟩, none⟩], (inner ['a']).restoreForced) j :=
    fun j => runs_read (by decide) (hinner ['a'] ▸ htokensA) rfl
  have htokensB : tokenize Config.initial.delimiters ['B'] =
      .ok (Token.place .start [⟨.raw, ['B']⟩]) := by
    rw [Config.delimiters_initial]
    cbv
  have hreadB : ∀ j, (read ['B'] (inner ['b'])).Runs j
      ([.mk (.raw ['B']) ⟨⟨0, 0⟩, none⟩], (inner ['b']).restoreForced) j :=
    fun j => runs_read (by decide) (hinner ['b'] ▸ htokensB) rfl
  have decodes : ∀ (w : Use) (target : Text) (bytes : Bytes) (content : Text) (j : Journal),
      Utf8.decode? bytes = some content →
        (w.decodeContent target (inner target).encoding bytes).Runs j content j := by
    intro w target bytes content j hcontent
    have hencoding : Encoding.ofName? (inner target).encoding = some .utf8 := rfl
    unfold Use.decodeContent
    simp [hencoding, Encoding.decode?, hcontent]
  let j₁ : Journal := (Journal.empty.call (.probe ['b'] true)).call (.read ['b'])
  let j₂ : Journal := j₁.note (.importing ['b'] false) v.location
  have hv : (v.resolve host .initial (compileImport host 1) [name]).Runs .empty
      [.mk (.raw ['B']) ⟨⟨0, 0⟩, some ['b']⟩] j₂ := by
    rw [Use.resolve_eq]
    have haim : (v.aim host .initial).Runs .empty (some ⟨['b'], [], []⟩) .empty := rfl
    have hload : (v.load host .initial ['b']).Runs .empty [66] j₁ := rfl
    refine runs_bind.2 ⟨_, _, haim, runs_bind.2 ⟨⟨['B'], inner ['b'], [name, ['b']]⟩, j₂, ?_, ?_⟩⟩
    · exact runs_bind.2 ⟨_, _, rfl, runs_bind.2 ⟨_, _, hload, runs_bind.2 ⟨_, _, rfl,
        runs_bind.2 ⟨_, _, decodes v ['b'] [66] ['B'] j₁ (by cbv), rfl⟩⟩⟩⟩
    · exact runs_within.2 (runs_bind.2 ⟨_, _, hreadB _, rfl⟩)
  let j₃ : Journal := (j₂.call (.probe ['a'] true)).call (.read ['a'])
  let k : Journal := j₃.note (.importing ['a'] false) u.location
  have hu : (u.resolve host .initial (compileImport host 1) [name]).Runs j₂
      [.mk (.raw ['A']) ⟨⟨0, 0⟩, some ['a']⟩] k := by
    rw [Use.resolve_eq]
    have haim : (u.aim host .initial).Runs j₂ (some ⟨['a'], [], []⟩) j₂ := rfl
    have hload : (u.load host .initial ['a']).Runs j₂ [65] j₃ := rfl
    refine runs_bind.2 ⟨_, _, haim, runs_bind.2 ⟨⟨['A'], inner ['a'], [name, ['a']]⟩, k, ?_, ?_⟩⟩
    · exact runs_bind.2 ⟨_, _, rfl, runs_bind.2 ⟨_, _, hload, runs_bind.2 ⟨_, _, rfl,
        runs_bind.2 ⟨_, _, decodes u ['a'] [65] ['A'] j₃ (by cbv), rfl⟩⟩⟩⟩
    · exact runs_within.2 (runs_bind.2 ⟨_, _, hreadA _, rfl⟩)
  have hanalyze : (analyze host .initial [command]).Runs .empty _ k :=
    runs_bind.2 ⟨_, _, runs_mapM.2 (.cons hv (.cons hu (.nil k))), runs_pure.2 ⟨rfl, rfl⟩⟩
  refine ⟨host, u, v, [command], k, hread, huses, Position.lt_iff.2 (.inr ⟨rfl, by decide⟩),
    ?_, ?_⟩
  · rw [Task.root_eq (by decide)]
    exact .cons (Use.contributes_of_resolve hv) (.cons (Use.contributes_of_resolve hu) (.nil k))
  · exact runs_bind.2 ⟨_, _, hread, runs_bind.2 ⟨_, _, hanalyze, runs_pure.2 ⟨rfl, rfl⟩⟩⟩

/-- The file in the argument contributes before the one in the parameter value. -/
theorem contributions_of_reaches_value :
    ∃ (host : Host) (u v : Use) (program q : List Node) (k : Journal),
      (compile host "\\x[k=\\use\x7ba\x7d]\x7b\\use\x7bb\x7d\x7d".toList .initial).Runs .empty
        (q, .initial) k ∧
      Reaches host (.root "\\x[k=\\use\x7ba\x7d]\x7b\\use\x7bb\x7d\x7d".toList .initial) .empty []
        (.root "\\x[k=\\use\x7ba\x7d]\x7b\\use\x7bb\x7d\x7d".toList .initial) .empty ∧
      (read "\\x[k=\\use\x7ba\x7d]\x7b\\use\x7bb\x7d\x7d".toList .initial).Runs .empty
        (program, .initial) .empty ∧
      importsOf .initial program = [v, u] ∧ u.location.position < v.location.position ∧
      Inverted .initial program v u := by
  obtain ⟨host, u, v, program, k, hread, huses, hlt, -, hcompile⟩ := runs_compile_value
  refine ⟨host, u, v, program, _, k, hcompile, .here _ _, hread, huses, hlt, ?_⟩
  obtain ⟨program', c₁, contributions, residual, i₁, i₂, hread', -, -, horder⟩ :=
    contributions_of_reaches hcompile (.here _ _)
  obtain ⟨hprogram, -⟩ := hread.unique hread'
  obtain ⟨rfl, rfl⟩ := Prod.mk.inj hprogram
  rw [huses] at horder
  obtain ⟨-, -, hnot⟩ | ⟨hinverted, -⟩ := horder u (by simp) v (by simp) hlt
  · exact absurd (List.Sublist.refl _) hnot
  · exact hinverted

/-- The statements of the earlier import do not always stand first in the program. -/
theorem later_contributes_first :
    ¬ ∀ (host : Host) (source : Text) (c c' c₁ : Config) (program q : List Node)
        (contributions : List (List Node)) (j i i' k : Journal),
      (compile host source c).Runs j (q, c') k → (read source c).Runs j (program, c₁) i →
        Each (fun w => w.Contributes host c₁ (Task.root source c).chain) i (importsOf c₁ program)
          contributions i' →
        ∀ u ns v ms, (u, ns) ∈ (importsOf c₁ program).zip contributions →
          (v, ms) ∈ (importsOf c₁ program).zip contributions →
          u.location.position < v.location.position → (ns ++ ms).Sublist q := by
  intro hall
  obtain ⟨host, u, v, program, k, hread, huses, hlt, heach, hcompile⟩ := runs_compile_value
  have h := hall _ _ _ _ _ _ _ _ _ _ _ _ hcompile hread (huses ▸ heach)
  rw [huses] at h
  have hlast := h u _ v _ (.tail _ (.head _)) (.head _) hlt
  simp [List.cons_sublist_cons'] at hlast

end Stencil
