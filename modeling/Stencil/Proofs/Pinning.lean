import Stencil.Proofs.Cycle

/-! Imports that want a digest. Where a template compiles, every one of them was given content with
that digest, unless it was left out. Content with another digest is refused before anything else is
done with it. -/
namespace Stencil

open Stencil.Action

namespace Node

theorem text?_mk (form : Form Node) (l : Location) : (mk form l).text? =
    match form.map text? with
    | .raw text => some text
    | .group body => (body.mapM id).map List.flatten
    | _ => none := fold_mk _ form l

theorem everywhere_not_isUse_of_text? {n : Node} (h : n.text?.isSome) :
    n.Everywhere fun m => m.isUse = false := by
  have statements : ∀ {ns : List Node}, ((ns.map text?).mapM id).isSome →
      ∀ q ∈ ns, q.text?.isSome := by
    intro ns hns
    induction ns with
    | nil => exact nofun
    | cons n ns ih =>
      rw [List.map_cons, List.mapM_cons] at hns
      cases hn : n.text? with
      | none => simp [hn] at hns
      | some text =>
        cases hrest : (ns.map text?).mapM id with
        | none => simp_all
        | some texts => exact List.forall_mem_cons.2 ⟨by simp [hn], ih (by simp [hrest])⟩
  induction n using induction with
  | step form l ih =>
    rw [text?_mk] at h
    cases form with
    | raw text => exact everywhere_iff.2 ⟨rfl, nofun⟩
    | group body =>
      rw [Form.map, Option.isSome_map] at h
      exact everywhere_iff.2 ⟨rfl, fun q hq => ih q hq (statements h q (by simpa using hq))⟩
    | _ => cases h

end Node

namespace Use

variable {host : Host} {c : Config} {u v : Use} {program : List Node} {j k : Journal}

/-- An import as a node. -/
def node (u : Use) : Node := .mk (.use u.target u.hash u.params) u.location

theorem node_injective (h : u.node = v.node) : u = v := by
  cases u
  cases v
  simpa [node, and_assoc] using h

/-- An import stands in a program, at whatever depth. -/
def StandsIn (u : Use) (c : Config) (program : List Node) : Prop :=
  ∃ n ∈ program, u.node.Occurs (n.stamp c.fileName)

theorem exists_mem_uses_of_occurs {n : Node} (h : u.node.Occurs n) :
    ∃ v ∈ n.uses, u.node.Occurs v.node := by
  have whole : ∀ {v : Use} {n : Node}, n = v.node → v ∈ n.uses := by
    rintro v n rfl
    rw [node, Node.uses_use]
    exact List.mem_singleton_self v
  induction h with
  | here => exact ⟨u, whole rfl, .here _⟩
  | inside hq hocc ih =>
    next q n =>
    obtain ⟨form, l⟩ := n
    cases huse : (Node.mk form l).isUse with
    | true =>
      cases form with
      | use target hash params => exact ⟨⟨target, hash, params, l⟩, whole rfl, .inside hq hocc⟩
      | _ => cases huse
    | false =>
      obtain ⟨v, hv, hvocc⟩ := ih
      refine ⟨v, ?_, hvocc⟩
      rw [Node.uses_mk form l huse]
      exact List.mem_flatMap.2 ⟨q, hq, hv⟩

theorem StandsIn.exists_mem (h : u.StandsIn c program) :
    ∃ v ∈ importsOf c program, u.node.Occurs v.node := by
  obtain ⟨n, hn, hocc⟩ := h
  obtain ⟨v, hv, hvocc⟩ := exists_mem_uses_of_occurs hocc
  exact ⟨v, List.mem_flatMap.2 ⟨_, List.mem_map_of_mem hn, hv⟩, hvocc⟩

theorem text?_of_runs_override {entry : Text × Option Node} {setting : Text × Text}
    (h : (u.override entry).Runs j setting k) : ∀ n ∈ entry.2, n.text?.isSome := by
  rw [override_eq] at h
  obtain ⟨_, i, -, h₁⟩ := runs_bind.1 h
  intro n hn
  rw [hn, Option.elim_some] at h₁
  cases htext : n.text? with
  | none => simp [htext] at h₁
  | some t => rfl

/-- An import that is bound for something holds no other import. -/
theorem eq_of_runs_aim {a : Aim} (h : (v.aim host c).Runs j (some a) k)
    (hocc : u.node.Occurs v.node) : u = v := by
  obtain ⟨-, -, i, htarget, hwanted, hmade⟩ := runs_aim_steps h
  have plain : ∀ q ∈ v.node.form.parts, q.Everywhere fun m => m.isUse = false := by
    refine Form.forall_mem_parts.2 ⟨fun q hq => ?_, fun p hp q hq => ?_⟩
    · obtain rfl | hq := List.mem_cons.1 hq
      · obtain ⟨target, heq, hsays, -⟩ | ⟨⟨⟩, -⟩ := runs_targetText? htarget
        unfold says? at hsays
        split at hsays
        · next source l htarget =>
          rw [htarget]
          exact Node.everywhere_iff.2 ⟨rfl, nofun⟩
        · obtain ⟨text, htext, -⟩ := Option.map_eq_some_iff.1 hsays
          exact Node.everywhere_not_isUse_of_text? (by simp [htext])
      · refine Node.everywhere_not_isUse_of_text? ?_
        unfold wanted? at hwanted
        rw [Option.mem_toList.1 hq] at hwanted
        obtain ⟨text, htext, -⟩ := Option.map_eq_some_iff.1 hwanted
        simp [htext]
    · obtain ⟨key, hentry⟩ := Params.mem_values.1 hq
      have hmem : (key, some q) ∈ v.params.elim [] Params.entries := by
        rw [show v.params = some p from hp]
        exact hentry
      obtain ⟨_, _, _, hoverride⟩ := (runs_mapM.1 hmade).exists_of_mem hmem
      exact Node.everywhere_not_isUse_of_text? (text?_of_runs_override hoverride q rfl)
  generalize hv : v.node = n at hocc plain
  cases hocc with
  | here => exact node_injective hv.symm
  | inside hq hinside => cases plain _ hq _ hinside

theorem runs_checkHash {target wanted : Text} {bytes : Bytes} {x : Unit} :
    (u.checkHash host target wanted bytes).Runs j x k ↔
      (wanted = [] ∨ (host.digest bytes).lower = wanted.lower) ∧ k = j := by
  unfold checkHash
  dsimp only
  split
  · next h => simp_all
  · next h => simp_all

theorem stops_checkHash {target wanted : Text} {bytes : Bytes} {s : Stop} :
    (u.checkHash host target wanted bytes).Stops j s k ↔
      (wanted ≠ [] ∧ (host.digest bytes).lower ≠ wanted.lower) ∧
        s = .failed ⟨[], .importing (.hashMismatch target wanted (host.digest bytes)),
          u.location⟩ ∧ k = j := by
  unfold checkHash
  dsimp only
  split
  · next h =>
    rw [Bool.or_eq_true, List.isEmpty_iff, decide_eq_true_eq] at h
    simp only [stops_pure, false_iff]
    rintro ⟨⟨hwanted, hdigest⟩, -⟩
    exact h.elim hwanted hdigest
  · next h => simp_all

theorem digest_of_runs_enter {chain : List Text} {a : Aim} {t : Task}
    (h : (u.enter host c chain a).Runs j t k) : ∃ bytes i, (u.load host c a.target).Runs j bytes i ∧
      (a.wanted = [] ∨ (host.digest bytes).lower = a.wanted.lower) := by
  rw [enter_eq] at h
  obtain ⟨_, i, hcycle, h₁⟩ := runs_bind.1 h
  obtain ⟨-, rfl⟩ := runs_checkCycle.1 hcycle
  obtain ⟨bytes, i₁, hload, h₂⟩ := runs_bind.1 h₁
  obtain ⟨_, i₂, hhash, -⟩ := runs_bind.1 h₂
  exact ⟨bytes, i₁, hload, (runs_checkHash.1 hhash).1⟩

/-- An import was left out with a warning, or its content has the digest that is wanted. -/
theorem skips_or_digest {nested : Text → Config → List Text → Action (List Node)}
    {chain : List Text} {ns : List Node} (h : (v.resolve host c nested chain).Runs j ns k)
    (hocc : u.node.Occurs v.node) :
    (∃ n, v.Skips host c n ∧ n.diagnostic v.location ∈ k.warnings) ∨
      u = v ∧ ∃ a i bytes i', (u.aim host c).Runs j (some a) i ∧
        (u.load host c a.target).Runs i bytes i' ∧ u.wanted? = some a.wanted ∧
        (a.wanted = [] ∨ (host.digest bytes).lower = a.wanted.lower) := by
  rw [resolve_eq] at h
  obtain ⟨a?, i, haim, h₁⟩ := runs_bind.1 h
  cases a? with
  | none =>
    obtain ⟨-, rfl⟩ := runs_pure.1 h₁
    obtain ⟨n, hskips, heq⟩ := runs_aim_none haim
    refine .inl ⟨n, hskips, ?_⟩
    rw [heq]
    exact List.mem_append_right _ List.mem_cons_self
  | some a =>
    obtain rfl := eq_of_runs_aim haim hocc
    obtain ⟨t, i', henter, -⟩ := runs_bind.1 h₁
    obtain ⟨bytes, i'', hload, hdigest⟩ := digest_of_runs_enter henter
    obtain ⟨-, -, -, -, hwanted, -⟩ := runs_aim_steps haim
    exact .inr ⟨rfl, a, i, bytes, i'', haim, hload, hwanted, hdigest⟩

theorem exists_hash_of_wanted? {wanted : Text} (h : u.wanted? = some wanted) (hne : wanted ≠ []) :
    ∃ hash, u.hash = some hash ∧ hash.text?.map Text.trim = some wanted := by
  unfold wanted? at h
  split at h
  · exact absurd (Option.some.inj h).symm hne
  · next hash hhash => exact ⟨hash, hhash, h⟩

/-- Content that has another digest than is wanted is refused as soon as it is there. -/
theorem stops_enter_of_digest {chain : List Text} {a : Aim} {bytes : Bytes}
    (hnot : c.keyOf a.target ∉ chain) (hload : (u.load host c a.target).Runs j bytes k)
    (hwanted : a.wanted ≠ []) (hdigest : (host.digest bytes).lower ≠ a.wanted.lower) :
    (u.enter host c chain a).Stops j
      (.failed ⟨[], .importing (.hashMismatch a.target a.wanted (host.digest bytes)), u.location⟩)
      k := by
  rw [enter_eq]
  refine stops_bind.2 (.inr ⟨(), j, runs_checkCycle.2 ⟨hnot, rfl⟩, ?_⟩)
  refine stops_bind.2 (.inr ⟨bytes, k, hload, stops_bind.2 (.inl ?_)⟩)
  exact stops_checkHash.2 ⟨⟨hwanted, hdigest⟩, rfl, rfl⟩

end Use

variable {host : Host} {c : Config} {j : Journal}

/-- Where a template compiles, each import with a hash was left out with a warning, or its content
has that digest; any other content fails the compilation at once, with both digests and the imports
on the way. -/
theorem digest_of_compile (source : Text) :
    (∀ q c' k, (compile host source c).Runs j (q, c') k →
      ∀ path t i, Reaches host (.root source c) j path t i →
      ∀ program c₁ i₁, (read t.content t.config).Runs i (program, c₁) i₁ →
      ∀ u hash, u.StandsIn c₁ program → u.hash = some hash →
        hash.text?.map Text.trim ≠ some [] →
        (∃ v ∈ importsOf c₁ program, u.node.Occurs v.node ∧
          ∃ n, v.Skips host c₁ n ∧ n.diagnostic v.location ∈ k.warnings) ∨
        ∃ a i₂ i₃ bytes i₄, Comes host t i u c₁ i₂ ∧ (u.aim host c₁).Runs i₂ (some a) i₃ ∧
          (u.load host c₁ a.target).Runs i₃ bytes i₄ ∧
          hash.text?.map Text.trim = some a.wanted ∧
          (host.digest bytes).lower = a.wanted.lower) ∧
    ∀ path t i u c₁ i₁ a i₂ bytes k, Reaches host (.root source c) j path t i →
      Comes host t i u c₁ i₁ → (u.aim host c₁).Runs i₁ (some a) i₂ →
      c₁.keyOf a.target ∉ t.chain → (u.load host c₁ a.target).Runs i₂ bytes k →
      a.wanted ≠ [] → (host.digest bytes).lower ≠ a.wanted.lower →
        let f : Failure := ⟨path.map Passage.asInclude,
          .importing (.hashMismatch a.target a.wanted (host.digest bytes)), u.location⟩
        (∃ hash, u.hash = some hash ∧ hash.text?.map Text.trim = some a.wanted) ∧
        (∃ least, ∀ n, least ≤ n → (compile (host.nestingTo n) source c).Stops j (.failed f) k) ∧
        ∀ n, (∃ k', (compile (host.nestingTo n) source c).Stops j .exhausted k') ∨
          (compile (host.nestingTo n) source c).Stops j (.failed f) k := by
  refine ⟨fun q c' k h path t i hreaches program c₁ i₁ hread u hash hstands hhash hnonblank => ?_,
    fun path t i u c₁ i₁ a i₂ bytes k hreaches hcomes haim hnot hload hwanted hdigest => ?_⟩
  · rw [compile_eq] at h
    obtain ⟨q', i₀, hroot, h₁⟩ := runs_bind.1 h
    obtain ⟨-, rfl⟩ := runs_pure.1 h₁
    obtain ⟨depth, ns, k', hfile, -⟩ := hreaches.runs hroot
    obtain ⟨v, hv, hocc⟩ := hstands.exists_mem
    obtain ⟨i₂, hcomes⟩ := Task.comes_of_mem hfile hread hv
    obtain ⟨_, i₅, hresolve, -, hgrows⟩ := hcomes.runs hfile
    have hwarned := (hgrows.trans (hreaches.grows hroot hfile)).warnings_subset
    obtain ⟨n, hskips, hnoted⟩ | ⟨rfl, a, i₃, bytes, i₄, haim, hload, hwanted, hdigest⟩ :=
      Use.skips_or_digest hresolve hocc
    · exact .inl ⟨v, hv, hocc, n, hskips, hwarned hnoted⟩
    · rw [Use.wanted?, hhash] at hwanted
      refine .inr ⟨a, i₂, i₃, bytes, i₄, hcomes, haim, hload, hwanted, ?_⟩
      exact hdigest.resolve_left fun hblank => hnonblank (hblank ▸ hwanted)
  · have henter := Use.stops_enter_of_digest hnot hload hwanted hdigest
    obtain ⟨least, hfile⟩ := hcomes.stops 0 fun _ _ => Use.stops_resolve haim henter _
    obtain ⟨least, htemplate⟩ := hreaches.stops least hfile
    rw [List.append_nil] at htemplate
    refine ⟨?_, ⟨least, fun n hn => ?_⟩, fun n => ?_⟩
    · obtain ⟨-, -, -, -, hsays, -⟩ := Use.runs_aim_steps haim
      exact Use.exists_hash_of_wanted? hsays hwanted
    · exact stops_compile_iff.2 (htemplate (n + 2) (by omega))
    · simp only [stops_compile_iff]
      exact Task.stops_of_deep htemplate (n + 2)

theorem tokenize_hashedImport : tokenize Config.initial.delimiters
    "\\use\x7bb\x7d\x7b 2E7D2C03A9507AE265ECF5B5356885A53393A2029D241394997265A1A25AEFC6\x7d".toList =
    .ok (Token.place .start [⟨.escape, ['\\']⟩, ⟨.commandName, "use".toList⟩, ⟨.argStart, ['{']⟩,
      ⟨.raw, ['b']⟩, ⟨.argEnd, ['}']⟩, ⟨.argStart, ['{']⟩,
      ⟨.raw, " 2E7D2C03A9507AE265ECF5B5356885A53393A2029D241394997265A1A25AEFC6".toList⟩,
      ⟨.argEnd, ['}']⟩]) := by
  rw [Config.delimiters_initial]
  decide +kernel

/-- A file that is imported with its digest; any other content is refused. -/
theorem digest_of_compile_file : ∃ (host other : Host) (source : Text) (c c' : Config)
    (q : List Node) (k : Journal) (u : Use),
    (compile host source c).Runs .empty (q, c') k ∧
      (∃ a i₂ i₃ bytes i₄, Comes host (.root source c) .empty u c' i₂ ∧
        (u.aim host c').Runs i₂ (some a) i₃ ∧ (u.load host c' a.target).Runs i₃ bytes i₄ ∧
        a.wanted = "2E7D2C03A9507AE265ECF5B5356885A53393A2029D241394997265A1A25AEFC6".toList ∧
        (host.digest bytes).lower = a.wanted.lower) ∧
      ∃ least, ∀ n, least ≤ n → (compile (other.nestingTo n) source c).Stops .empty
        (.failed ⟨[], .importing (.hashMismatch ['b']
          "2E7D2C03A9507AE265ECF5B5356885A53393A2029D241394997265A1A25AEFC6".toList
          "18ac3e7343f016890c510e93f935261169d9e3f565436429830faf0934f4f8e4".toList), u.location⟩)
        ⟨[], [.probe ['b'] true, .read ['b']]⟩ := by
  let host (content : Bytes) : Host := .offline fun _ => .ok content
  let c : Config := Config.initial.force Setting.fileEncoding "latin1".toList
  let name : Text := "stdin".toList
  let digest : Text := "2E7D2C03A9507AE265ECF5B5356885A53393A2029D241394997265A1A25AEFC6".toList
  let source : Text :=
    "\\use\x7bb\x7d\x7b 2E7D2C03A9507AE265ECF5B5356885A53393A2029D241394997265A1A25AEFC6\x7d".toList
  let target : Node := .mk (.group [.mk (.raw ['b']) ⟨⟨0, 5⟩, none⟩]) ⟨⟨0, 4⟩, none⟩
  let text : Text := " 2E7D2C03A9507AE265ECF5B5356885A53393A2029D241394997265A1A25AEFC6".toList
  let hash : Node := .mk (.group [.mk (.raw text) ⟨⟨0, 8⟩, none⟩]) ⟨⟨0, 7⟩, none⟩
  let statement : Node := .mk (.use target (some hash) none) ⟨⟨0, 0⟩, none⟩
  have hread : (read source c).Runs .empty ([statement], c.restoreForced) .empty :=
    runs_read (by decide) tokenize_hashedImport rfl
  have hroot : Task.root source c = ⟨source, c, [name]⟩ := Task.root_eq (by decide)
  let u : Use := ⟨target.stamp name, some (hash.stamp name), none, ⟨⟨0, 0⟩, name⟩⟩
  let a : Aim := ⟨['b'], digest, []⟩
  let i : Journal := (Journal.empty.call (.probe ['b'] true)).call (.read ['b'])
  have hcomes : ∀ content, Comes (host content) (.root source c) .empty u c.restoreForced .empty :=
    fun _ => hroot ▸ .first hread rfl
  have haim : ∀ content, (u.aim (host content) c.restoreForced).Runs .empty (some a) .empty :=
    fun _ => rfl
  have hload : ∀ content,
      (u.load (host content) c.restoreForced ['b']).Runs .empty content i := fun _ => rfl
  have hdigest : (Digest.hex [99]).lower = digest.lower := by decide +kernel
  let inner : Config := c.restoreForced.forImport ['b'] ['.'] []
  let k : Journal := i.note (.importing ['b'] false) u.location
  have hinner : inner.restoreForced.delimiters = Config.initial.delimiters := rfl
  have htokens : tokenize inner.restoreForced.delimiters ['c'] =
      .ok (Token.place .start [⟨.raw, ['c']⟩]) := by
    rw [hinner, Config.delimiters_initial]
    cbv
  have hdecode : (u.decodeContent ['b'] inner.encoding [99]).Runs i ['c'] i := rfl
  have hhash : (u.checkHash (host [99]) ['b'] digest [99]).Runs i () i :=
    Use.runs_checkHash.2 ⟨.inr hdigest, rfl⟩
  have henter : (u.enter (host [99]) c.restoreForced [name] a).Runs .empty
      ⟨['c'], inner, [name, ['b']]⟩ k :=
    runs_bind.2 ⟨_, _, rfl, runs_bind.2 ⟨_, _, hload _, runs_bind.2 ⟨_, _, hhash,
      runs_bind.2 ⟨_, _, hdecode, rfl⟩⟩⟩⟩
  have hcontent : (compileImport (host [99]) 1 ['c'] inner [name, ['b']]).Runs k
      [.mk (.raw ['c']) ⟨⟨0, 0⟩, some ['b']⟩] k :=
    runs_bind.2 ⟨_, k, runs_read (by decide) htokens rfl, rfl⟩
  have hresolve : (u.resolve (host [99]) c.restoreForced (compileImport (host [99]) 1)
      [name]).Runs .empty [.mk (.raw ['c']) ⟨⟨0, 0⟩, some ['b']⟩] k := by
    rw [Use.resolve_eq]
    exact runs_bind.2 ⟨_, _, haim _, runs_bind.2 ⟨_, _, henter, runs_within.2 hcontent⟩⟩
  have hcompile : (compile (host [99]) source c).Runs .empty (_, c.restoreForced) k :=
    runs_bind.2 ⟨_, _, hread, runs_bind.2 ⟨_, _, runs_bind.2 ⟨_, _,
      runs_mapM.2 (.cons hresolve (.nil k)), runs_pure.2 ⟨rfl, rfl⟩⟩, runs_pure.2 ⟨rfl, rfl⟩⟩⟩
  refine ⟨host [99], host [100], source, c, c.restoreForced, _, k, u, hcompile, ?_, ?_⟩
  · have hstands : u.StandsIn c.restoreForced [statement] :=
      ⟨statement, List.mem_cons_self, .here _⟩
    obtain ⟨v, hv, -, n, hskips, -⟩ | ⟨a', i₂, i₃, bytes, i₄, hcomes', haim', hload', hwanted, h⟩ :=
      (digest_of_compile source).1 _ _ _ hcompile [] _ _ (.here _ _) _ _ _ hread u _
        hstands rfl (by decide)
    · obtain rfl := List.mem_singleton.1 hv
      exact absurd hskips (Use.runs_aim_some (haim [99])).1.not_skips
    · exact ⟨a', i₂, i₃, bytes, i₄, hcomes', haim', hload', (Option.some.inj hwanted).symm, h⟩
  · have hother : Digest.hex [100] =
        "18ac3e7343f016890c510e93f935261169d9e3f565436429830faf0934f4f8e4".toList := by
      decide +kernel
    rw [← hother]
    have hnot : c.restoreForced.keyOf ['b'] ∉ (Task.root source c).chain := by
      rw [hroot]
      decide
    have hne : (Digest.hex [100]).lower ≠ digest.lower := by decide +kernel
    exact ((digest_of_compile source).2 [] _ _ u _ _ a _ _ _ (.here _ _) (hcomes _) (haim _) hnot
      (hload [100]) (by decide) hne).2.1

end Stencil
