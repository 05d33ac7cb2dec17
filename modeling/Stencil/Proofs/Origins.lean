import Stencil.Proofs.Bodies
import Stencil.Proofs.Inheritance

/-! Of which file each node of a compiled program is, and where the failures and diagnostics of its
rendering are. -/
namespace Stencil

namespace Node

variable {m n : Node} {file : Text}

theorem Occurs.exists_of_stamp (h : m.Occurs (n.stamp file)) :
    ∃ m₀ : Node, m₀.Occurs n ∧ m = m₀.stamp file := by
  induction n using induction with
  | step form l ih =>
    cases h with
    | here => exact ⟨_, .here _, rfl⟩
    | inside hq hm =>
      rw [stamp_mk, form_mk, Form.parts_mapLocation, Form.parts_map, List.mem_map] at hq
      obtain ⟨q, hpart, rfl⟩ := hq
      obtain ⟨m₀, hm₀, rfl⟩ := ih q hpart hm
      exact ⟨m₀, .inside hpart hm₀, rfl⟩

theorem Occurs.exists_of_withoutUses (h : m.Occurs n.withoutUses) :
    ∃ m₀ : Node, m₀.Occurs n ∧ m = m₀.withoutUses := by
  induction n using induction with
  | step form l ih =>
    cases h with
    | here => exact ⟨_, .here _, rfl⟩
    | inside hq hm =>
      obtain ⟨q, hpart, rfl, -⟩ := of_mem_parts_sift hq
      obtain ⟨m₀, hm₀, rfl⟩ := ih q hpart hm
      exact ⟨m₀, .inside hpart hm₀, rfl⟩

theorem stamp_of_file_eq_none {l : Location} (h : l.file = none) :
    l.stamp file = ⟨l.position, some file⟩ := by
  obtain ⟨p, f⟩ := l
  obtain rfl : f = none := h
  rfl

theorem KnowsNoFile.location_stamp (h : n.KnowsNoFile) :
    (n.stamp file).location = ⟨n.location.position, some file⟩ := by
  obtain ⟨form, l⟩ := n
  rw [stamp_mk]
  exact stamp_of_file_eq_none h.1

theorem location_withoutUses (n : Node) : n.withoutUses.location = n.location :=
  location_sift _ n

theorem KnowsNoFile.params?_stamp (h : n.KnowsNoFile) :
    (n.stamp file).withoutUses.form.params?.map Params.location =
      n.form.params?.map fun p => ⟨p.location.position, some file⟩ := by
  obtain ⟨form, l⟩ := n
  rw [stamp_mk, withoutUses_mk, form_mk, form_mk, Form.params?_mapBody, Form.params?_map,
    Form.params?_mapLocation, Form.params?_map, Option.map_map, Option.map_map, Option.map_map]
  cases hp : form.params? with
  | none => rfl
  | some p => exact congrArg some (stamp_of_file_eq_none (h.2 p hp))

theorem occurs_of_mem_uses {u : Use} (h : u ∈ n.uses) :
    (mk (.use u.target u.hash u.params) u.location).Occurs n := by
  induction n using induction with
  | step form l ih =>
    cases huse : (mk form l).isUse with
    | true =>
      cases form with
      | use target hash params =>
        rw [uses_use] at h
        obtain rfl := List.mem_singleton.1 h
        exact .here _
      | _ => cases huse
    | false =>
      rw [uses_mk form l huse] at h
      obtain ⟨q, hq, h⟩ := List.mem_flatMap.1 h
      exact .inside hq (ih q hq h)

end Node

open Stencil.Action

section Compiling

variable {host : Host} {t t' : Task} {c : Config} {i j k : Journal} {path : List Passage}
  {program q : List Node}

/-- Imported content is known by what its import says, and a template by its own setting. -/
theorem Reaches.fileName_eq {source : Text} {c₁ : Config}
    (h : Reaches host (.root source c) j path t i)
    (hread : (read t.content t.config).Runs i (program, c₁) k) :
    c₁.fileName = path.getLast?.elim (c.forSource source).fileName Passage.target := by
  obtain rfl := read_forSource hread
  obtain rfl | ⟨before, p, rfl⟩ := path.eq_nil_or_concat
  · obtain ⟨⟩ := h
    rfl
  · rw [List.concat_eq_append] at h ⊢
    have hne : Setting.fileName ≠ Setting.filePath := by decide
    unfold Config.fileName Config.get
    rw [Config.get?_values_forSource, h.get?_values, h.last?_forced, if_neg hne, if_pos rfl]
    simp

/-- The nodes of a compiled program are those of its files, with the file recorded and without
imports. -/
theorem Task.exists_read_of_mem {depth : Nat} (h : (t.compile host depth).Runs j q k) :
    ∀ n ∈ q, ∃ path t' i program c i', Reaches host t j path t' i ∧
      (read t'.content t'.config).Runs i (program, c) i' ∧
      ∃ m ∈ program, n = (m.stamp c.fileName).withoutUses := by
  induction depth generalizing t j q k with
  | zero => exact absurd h runs_throw
  | succ depth ih =>
    obtain ⟨⟨program, c⟩, i, hread, h⟩ := runs_bind.1 h
    obtain ⟨contributions, i', hall, h⟩ := runs_bind.1 h
    obtain ⟨rfl, rfl⟩ := runs_pure.1 h
    intro n hn
    obtain hn | hn := List.mem_append.1 hn
    · obtain ⟨ns, hns, hn⟩ := List.mem_flatten.1 hn
      obtain ⟨before, u, after, done, i₁, i₂, huses, hbefore, hu⟩ := exists_runs_of_mem hall hns
      rw [Use.resolve_eq] at hu
      obtain ⟨a?, i₃, haim, hu⟩ := runs_bind.1 hu
      cases a? with
      | none => simp [(runs_pure.1 hu).1] at hn
      | some a =>
        obtain ⟨t', i₄, henter, hu⟩ := runs_bind.1 hu
        have henters := Enters.intro (.intro hread huses hbefore) haim henter
        obtain ⟨path, t'', i₅, program', c', i₆, hreaches, hfound⟩ := ih (runs_within.1 hu) n hn
        exact ⟨_, t'', i₅, program', c', i₆, .through henters hreaches, hfound⟩
    · simp only [List.mem_map, List.mem_filter] at hn
      obtain ⟨_, ⟨⟨m, hm, rfl⟩, -⟩, rfl⟩ := hn
      exact ⟨[], t, j, program, c, i, .here t j, hread, m, hm, rfl⟩

end Compiling

section Rendering

variable {host : Host} {c : Config} {steps : Nat} {program : List Node} {j : Journal}

/-- Some node of a program stands at a location. -/
def StandsAt (program : List Node) (l : Location) : Prop :=
  ∃ n ∈ program, ∃ m : Node, m.Occurs n ∧ m.location = l

/-- What was noted since a journal was noted where nodes of a program stand. -/
def NotedAt (program : List Node) (j k : Journal) : Prop :=
  ∃ noted, k.diagnostics = j.diagnostics ++ noted ∧ ∀ d ∈ noted, StandsAt program d.location

theorem NotedAt.note {k : Journal} {l : Location} (h : NotedAt program j k) (n : Notice)
    (hl : StandsAt program l) : NotedAt program j (k.note n l) := by
  obtain ⟨noted, heq, hnoted⟩ := h
  refine ⟨noted ++ [n.diagnostic l], ?_, fun d hd => ?_⟩
  · rw [Journal.note, heq, List.append_assoc]
  · obtain hd | hd := List.mem_append.1 hd
    · exact hnoted d hd
    · exact List.mem_singleton.1 hd ▸ hl

theorem standsAt_of_occurs {form : Form Node} {l : Location} (hform : ∀ body, form ≠ .group body)
    (h : (Node.mk form l).Occurs (.mk (.group program) .start)) : StandsAt program l := by
  obtain _ | ⟨hq, h⟩ := h
  · exact absurd rfl (hform program)
  · rw [Node.form_mk, Form.parts_group] at hq
    exact ⟨_, hq, _, h, rfl⟩

theorem Does.standsAt {v : Node → Rendering Text} {form : Form Node} {l l' : Location} {d : Deed}
    {s t : Session} (h : Does v l s form d l' t)
    (hn : (Node.mk form l).Occurs (.mk (.group program) .start)) : StandsAt program l' := by
  cases h with
  | define _ =>
    obtain _ | ⟨hq, hn⟩ := hn
    rw [Node.form_mk, Form.parts_group] at hq
    exact ⟨_, hq, _, hn.part (List.mem_append_left _ List.mem_cons_self), rfl⟩
  | _ =>
    refine standsAt_of_occurs ?_ hn
    exact nofun

/-- Whatever a program does, what it notes is noted where a node of it stands. -/
theorem lastingOn_notedAt : LastingOn host c (fun n => n.Occurs (.mk (.group program) .start))
    fun s => (s.scopes.Every fun p => p.2.MadeIn (.mk (.group program) .start)) ∧
      NotedAt program j s.journal := by
  have hmade : LastingOn host c (fun n => n.Occurs (.mk (.group program) .start)) _ :=
    lastingOn_made
  refine ⟨hmade.part, ?_, ?_, ?_, ?_⟩
  · exact fun hn hcalls ht => hmade.body hn hcalls ht.1
  · exact fun hn hcalls ht => ⟨hmade.opened hn hcalls ht.1, ht.2⟩
  · exact fun ht => ⟨hmade.closed ht.1, ht.2⟩
  · intro v form l l' d s t hn hdoes ht
    refine ⟨hmade.done hn hdoes ht.1, ?_⟩
    exact Deed.final_of (P := fun t => NotedAt program j t.journal) ht.2
      (fun n _ h => h.note n (hdoes.standsAt hn)) (fun _ _ _ _ _ _ h => h) fun _ _ => ht.2

theorem ends_visitProgram : Rendering.Ends (fun t => NotedAt program j t.journal)
    (fun e t => (e = .exhausted ∨ ∃ cause l, StandsAt program l ∧
      e = .failed ⟨[], .render cause, l⟩) ∧ NotedAt program j t.journal)
    (visitProgram host c steps program) ⟨.initial, j⟩ := by
  have hlasting : LastingOn host c (fun n => n.Occurs (.mk (.group program) .start)) _ :=
    lastingOn_notedAt (j := j)
  have hends := hlasting.ends (E := fun e => e = .exhausted ∨ ∃ cause l, StandsAt program l ∧
      e = .failed ⟨[], .render cause, l⟩) (.inl rfl)
    (fun cause hn hform => .inr ⟨cause, _, standsAt_of_occurs hform hn, rfl⟩)
    (fun hn hdoes hstops => by
      obtain ⟨cause, rfl⟩ := Deed.stops_run hstops
      exact .inr ⟨cause, _, hdoes.standsAt hn, rfl⟩)
    (steps + 1) (.here _) (s := ⟨.initial, j⟩)
    ⟨Scopes.every_initial, [], (List.append_nil _).symm, nofun⟩
  exact ⟨fun hr => (hends.runs hr).2, fun hr => (hends.stops hr).imp_right And.right⟩

/-- A program whose files are known notes and fails where nodes of it stand. -/
theorem standsAt_of_interpret (hknown : ∀ n ∈ program, n.Everywhere Node.KnowsFile) :
    (∀ f k, (interpret steps host c program).Stops j (.failed f) k →
      f.includes = [] ∧ StandsAt program f.location) ∧
    NotedAt program j ((interpret steps host c program).final j) := by
  have hends : Rendering.Ends _ _ (visitProgram host c steps program) ⟨.initial, j⟩ :=
    ends_visitProgram
  unfold Action.Stops Action.final
  rw [outcome_interpret]
  match hvisit : (visitProgram host c steps program).outcome ⟨.initial, j⟩ with
  | (.ok t, s) => exact ⟨nofun, hends.runs hvisit⟩
  | (.error .exhausted, s) => exact ⟨nofun, (hends.stops hvisit).2⟩
  | (.error (.failed f), s) =>
    obtain ⟨hfailed, hnoted⟩ := hends.stops hvisit
    refine ⟨fun f' k heq => ?_, hnoted⟩
    obtain heq' | ⟨cause, l, hl, heq'⟩ := hfailed
    · cases heq'
    · cases heq'
      obtain ⟨n, hn, m, hm, rfl⟩ := hl
      obtain ⟨file, hfile⟩ := Option.isSome_iff_exists.1 (hknown n hn m hm).1
      have hstamp : m.location.stamp c.fileName = m.location := by
        unfold Location.stamp
        rw [hfile, Option.getD_some, ← hfile]
      cases heq
      exact ⟨rfl, n, hn, m, hm, hstamp.symm⟩

end Rendering

section Results

variable {host : Host} {source : Text} {c c' : Config} {program : List Node} {j k : Journal}

/-- Each node of a compiled program, and its parameter list, is one of a file that imports lead to,
with the name of that file and its place there; and the rendering notes and fails at nodes of the
program. -/
theorem origins_of_compile (h : (compile host source c).Runs j (program, c') k) :
    (∀ n ∈ program, ∀ m : Node, m.Occurs n → ∃ path t i original c₁ i₁,
      Reaches host (.root source c) j path t i ∧
      (read t.content t.config).Runs i (original, c₁) i₁ ∧
      c₁.fileName = path.getLast?.elim c'.fileName Passage.target ∧
      ∃ n₀ ∈ original, ∃ m₀ : Node, m₀.Occurs n₀ ∧ m = (m₀.stamp c₁.fileName).withoutUses ∧
        m.location = ⟨m₀.location.position, some c₁.fileName⟩ ∧
        m.form.params?.map Params.location =
          m₀.form.params?.map fun p => ⟨p.location.position, some c₁.fileName⟩) ∧
    ∀ (steps : Nat) (host' : Host) (c₀ : Config) (j₀ : Journal),
      (∀ f k₀, (interpret steps host' c₀ program).Stops j₀ (.failed f) k₀ →
        f.includes = [] ∧ StandsAt program f.location) ∧
      ∃ noted,
        ((interpret steps host' c₀ program).final j₀).diagnostics = j₀.diagnostics ++ noted ∧
        ∀ d ∈ noted, StandsAt program d.location := by
  obtain ⟨rfl, hroot⟩ := runs_compile.1 h
  constructor
  · intro n hn m hm
    obtain ⟨path, t, i, original, c₁, i₁, hreaches, hread, n₀, hn₀, rfl⟩ :=
      Task.exists_read_of_mem hroot n hn
    obtain ⟨m', hm', rfl⟩ := hm.exists_of_withoutUses
    obtain ⟨m₀, hm₀, rfl⟩ := hm'.exists_of_stamp
    have hunknown := read_knowsNoFile hread n₀ hn₀ m₀ hm₀
    exact ⟨path, t, i, original, c₁, i₁, hreaches, hread, hreaches.fileName_eq hread, n₀, hn₀, m₀,
      hm₀, rfl, (Node.location_withoutUses _).trans hunknown.location_stamp, hunknown.params?_stamp⟩
  · intro steps host' c₀ j₀
    refine standsAt_of_interpret fun n hn => ?_
    exact (compileImport_resolved _ hroot n hn).imp fun _ hm => hm.2

theorem runs_read_import (hinitial : c.restoreForced.delimiters = Config.initial.delimiters) :
    (read "\\use\x7bb\x7d".toList c).Runs j
      ([.mk (.use (.mk (.group [.mk (.raw ['b']) ⟨⟨0, 5⟩, none⟩]) ⟨⟨0, 4⟩, none⟩) none none)
        ⟨⟨0, 0⟩, none⟩], c.restoreForced) j := by
  have htokens : tokenize Config.initial.delimiters "\\use\x7bb\x7d".toList =
      .ok (Token.place .start [⟨.escape, ['\\']⟩, ⟨.commandName, "use".toList⟩, ⟨.argStart, ['{']⟩,
        ⟨.raw, ['b']⟩, ⟨.argEnd, ['}']⟩]) := by
    rw [Config.delimiters_initial]
    decide +kernel
  refine runs_read (by decide) (hinitial ▸ htokens) ?_
  rw [hinitial, Config.delimiters_initial]
  rfl

/-- What fails in a file that is imported fails in that file. -/
theorem origins_of_compile_call : ∃ (host : Host) (source : Text) (c c' : Config)
    (program : List Node) (k k' : Journal) (f : Failure),
    (compile host source c).Runs .empty (program, c') k ∧
    (interpret 2 host c' program).Stops k (.failed f) k' ∧ f.location = ⟨⟨0, 0⟩, some ['b']⟩ ∧
    ∃ path t i original c₁ i₁, Reaches host (.root source c) .empty path t i ∧
      (read t.content t.config).Runs i (original, c₁) i₁ ∧
      path.getLast?.elim c'.fileName Passage.target = ['b'] := by
  let host : Host := .offline fun _ => .ok [92, 120]
  let c : Config := Config.initial.force Setting.fileEncoding "latin1".toList
  let name : Text := "stdin".toList
  let source : Text := "\\use\x7bb\x7d".toList
  let target : Node := .mk (.group [.mk (.raw ['b']) ⟨⟨0, 5⟩, none⟩]) ⟨⟨0, 4⟩, none⟩
  have hread : (read source c).Runs .empty
      ([.mk (.use target none none) ⟨⟨0, 0⟩, none⟩], c.restoreForced) .empty :=
    runs_read_import rfl
  let u : Use := ⟨target.stamp name, none, none, ⟨⟨0, 0⟩, name⟩⟩
  let k : Journal := ((Journal.empty.call (.probe ['b'] true)).call (.read ['b'])).note
    (.importing ['b'] false) u.location
  let inner : Config := c.restoreForced.forImport ['b'] ['.'] []
  have hinner : inner.restoreForced.delimiters = Config.initial.delimiters := rfl
  have htokens : tokenize inner.restoreForced.delimiters ['\\', 'x'] =
      .ok (Token.place .start [⟨.escape, ['\\']⟩, ⟨.commandName, ['x']⟩]) := by
    rw [hinner, Config.delimiters_initial]
    cbv
  let call : Node := .mk (.call ['x'] none []) ⟨⟨0, 0⟩, some ['b']⟩
  have hcontent : (compileImport host 1 ['\\', 'x'] inner [name, ['b']]).Runs k [call] k :=
    runs_bind.2 ⟨_, k, runs_read (by decide) htokens rfl, rfl⟩
  have hresolve : (u.resolve host c.restoreForced (compileImport host 1) [name]).Runs .empty
      [call] k := runs_within.2 hcontent
  have hcompile : (compile host source c).Runs .empty ([call], c.restoreForced) k :=
    runs_bind.2 ⟨_, _, hread, runs_bind.2 ⟨_, _, runs_bind.2 ⟨_, _,
      runs_mapM.2 (.cons hresolve (.nil k)), runs_pure.2 ⟨rfl, rfl⟩⟩, runs_pure.2 ⟨rfl, rfl⟩⟩⟩
  let f : Failure := ⟨[], .render (.undefinedFunction ['x']), ⟨⟨0, 0⟩, some ['b']⟩⟩
  have hstops : (interpret 2 host c.restoreForced [call]).Stops k (.failed f) k := rfl
  obtain ⟨hnodes, hrendered⟩ := origins_of_compile hcompile
  obtain ⟨-, n, hn, m, hm, hlocation⟩ := (hrendered 2 host c.restoreForced k).1 f k hstops
  obtain ⟨path, t, i, original, c₁, i₁, hreaches, hfile, hname, _, -, _, -, -, hm', -⟩ :=
    hnodes n hn m hm
  have hfileName : some c₁.fileName = some ['b'] :=
    congrArg Location.file (hm'.symm.trans hlocation)
  exact ⟨host, source, c, _, _, k, k, f, hcompile, hstops, rfl, path, t, i, original, c₁, i₁,
    hreaches, hfile, hname.symm.trans (Option.some.inj hfileName)⟩

end Results

end Stencil
