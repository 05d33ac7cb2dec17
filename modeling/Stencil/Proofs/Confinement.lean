import Stencil.Proofs.Deeds
import Stencil.Proofs.Descent

/-! What a rendering can reach outside itself. While a template is compiled, only imports ask the
host, each behind the gates of its own file. While a program is rendered, the gates of the template
count, whatever was imported. A construct that comes to a closed gate leaves a warning only. -/
namespace Stencil

open Stencil.Action

/-- While an import is resolved from `j` on, the host is asked `call` after `past`. -/
def Use.Asks (host : Host) (c : Config) (u : Use) (chain : List Text) (j : Journal)
    (past : List Call) (call : Call) : Prop :=
  (u.aim host c).Asks j past call ∨
    ∃ a i, (u.aim host c).Runs j (some a) i ∧ (u.enter host c chain a).Asks i past call

section Compiling

variable {host : Host} {c : Config} {u : Use} {t : Task} {j k : Journal} {past : List Call}
  {call : Call}

/-- An import asks what the gates of its file let through. -/
theorem Use.Asks.enabled {chain : List Text} (h : u.Asks host c chain j past call) :
    (call.gate = .net ∨ call.gate = .files ∨ call.gate = .eval) ∧
      c.enabled .imports = true ∧ c.enabled call.gate = true := by
  obtain haim | ⟨a, i, haim, henter⟩ := h
  · obtain ⟨himports, heval, -⟩ := Use.obeys_aim.of_asks haim
    exact ⟨.inr (.inr rfl), himports, heval⟩
  · obtain ⟨hbound, -⟩ := Use.runs_aim_some haim
    obtain ⟨gate, hgate, hopen⟩ := hbound.gate
    have hfiles : Origin.ofTarget a.target ≠ .net → gate = .files := by
      intro hnet
      cases horigin : Origin.ofTarget a.target with
      | package => simp [horigin, Origin.gate?] at hgate
      | net => exact absurd horigin hnet
      | files => simpa [horigin, Origin.gate?, eq_comm] using hgate
    cases (Use.obeys_enter chain a).of_asks henter with
    | fetch hnet =>
      rw [hnet] at hgate
      obtain rfl := Option.some.inj hgate
      exact ⟨.inl rfl, hbound.imports, hopen⟩
    | probe found hnet =>
      obtain rfl := hfiles hnet
      exact ⟨.inr (.inl rfl), hbound.imports, hopen⟩
    | read hnet =>
      obtain rfl := hfiles hnet
      exact ⟨.inr (.inl rfl), hbound.imports, hopen⟩

/-- What resolving an import asks, it asks itself or while its content is compiled. -/
theorem Use.asks_resolve {nested : Text → Config → List Text → Action (List Node)}
    {chain : List Text}
    (hnested : ∀ content c chain, Obeys (fun _ => True) (fun _ => True) (nested content c chain))
    (h : (u.resolve host c nested chain).Asks j past call) :
    u.Asks host c chain j past call ∨ ∃ a t i i', (u.aim host c).Runs j (some a) i ∧
      (u.enter host c chain a).Runs i t i' ∧
      (nested t.content t.config t.chain).Asks i' past call := by
  have hcontent : ∀ (a : Aim) (t : Task), Obeys (fun _ => True) (fun _ => True)
      (within ⟨a.target, u.location⟩ (nested t.content t.config t.chain)) :=
    fun _ t => .within (hnested t.content t.config t.chain)
  rw [resolve_eq] at h
  have hsplit := asks_bind (P := fun _ => True) (F := fun _ => True) (fun a? => by
    cases a? with
    | none => exact .pure
    | some a =>
      refine .bind ((obeys_enter chain a).mono (fun _ _ => trivial) fun _ _ => trivial) ?_
      exact hcontent a) h
  obtain h | ⟨a?, i, haim, h⟩ := hsplit
  · exact .inl (.inl h)
  cases a? with
  | none => exact absurd h not_asks_pure
  | some a =>
    obtain h | ⟨t, i', henter, h⟩ := asks_bind (hcontent a) h
    · exact .inl (.inr ⟨a, i, haim, h⟩)
    · exact .inr ⟨a, t, i, i', haim, henter, asks_within.1 h⟩

theorem asks_resolveImports {nested : Text → Config → List Text → Action (List Node)}
    {chain : List Text} {program : List Node}
    (hnested : ∀ content c chain, Obeys (fun _ => True) (fun _ => True) (nested content c chain))
    (h : (resolveImports host c nested chain program).Asks j past call) :
    ∃ before u after ys i, importsOf c program = before ++ u :: after ∧
      (before.mapM fun (v : Use) => v.resolve host c nested chain).Runs j ys i ∧
      (u.resolve host c nested chain).Asks i past call := by
  have hresolve : ∀ u : Use, Obeys (fun _ => True) (fun _ => True)
      (u.resolve host c nested chain) := fun u => u.obeys_resolve _ hnested
  unfold resolveImports at h
  have hpure : ∀ imported : List (List Node), Obeys (fun _ => True) (fun _ => True)
      (pure (imported.flatten ++ ((program.map (Node.stamp c.fileName)).filter (!·.isUse)).map
        Node.withoutUses) : Action (List Node)) := fun _ => .pure
  obtain h | ⟨_, _, -, h⟩ := asks_bind hpure h
  · exact asks_mapM hresolve h
  · exact absurd h not_asks_pure

/-- All that compiling asks is asked by an import whose turn it is. -/
theorem Task.asks_compile {depth : Nat} (h : (t.compile host depth).Asks j past call) :
    ∃ path t' i u c i', Reaches host t j path t' i ∧ Comes host t' i u c i' ∧
      u.Asks host c t'.chain i' past call := by
  induction depth generalizing t j with
  | zero => exact absurd h not_asks_throw
  | succ depth ih =>
    have hnested : ∀ content c chain, Obeys (fun _ => True) (fun _ => True)
        (compileImport host depth content c chain) := obeys_compileImport depth
    have himports : ∀ p : List Node × Config, Obeys (fun _ => True) (fun _ => True)
        (resolveImports host p.2 (compileImport host depth) t.chain p.1) :=
      fun p => obeys_resolveImports t.chain p.1 hnested
    have hfile : (read t.content t.config >>= fun p =>
        resolveImports host p.2 (compileImport host depth) t.chain p.1).Asks j past call := h
    obtain h | ⟨⟨program, c⟩, i, hread, h⟩ := asks_bind himports hfile
    · exact absurd h not_asks_read
    obtain ⟨before, u, after, _, i', huses, hbefore, hu⟩ := asks_resolveImports hnested h
    have hcomes : Comes host t j u c i' := .intro hread huses hbefore
    obtain hasks | ⟨a, t', i₁, i₂, haim, henter, hrest⟩ := Use.asks_resolve hnested hu
    · exact ⟨[], t, j, u, c, i', .here t j, hcomes, hasks⟩
    · obtain ⟨path, t'', i₃, v, c', i₄, hreaches, hv⟩ := ih hrest
      exact ⟨_, t'', i₃, v, c', i₄, .through (.intro hcomes haim henter) hreaches, hv⟩

end Compiling

section Rendering

variable {host : Host} {c : Config} {steps : Nat} {j : Journal}

/-- Whatever a program does, it asks the host only what open gates are before. -/
theorem lasting_gates : Lasting host c fun s =>
    Journal.Grows (fun call => c.enabled call.gate = true) j s.journal where
  opened _ _ _ hs := hs
  closed hs := hs
  done {s} d l hs := by
    refine Deed.final_of (P := fun t => Journal.Grows _ j t.journal) hs ?_ ?_ fun _ _ => hs
    · exact fun n t ht => ht.trans (Journal.grows_note n l t.journal)
    · intro f _ hopen call t hgate ht
      exact ht.trans (Journal.grows_call (hgate ▸ hopen) t.journal)

theorem final_interpret (program : List Node) (j : Journal) :
    (interpret steps host c program).final j =
      ((visitProgram host c steps program).final ⟨.initial, j⟩).journal := by
  unfold Action.final Rendering.final
  rw [outcome_interpret]
  match (visitProgram host c steps program).outcome ⟨.initial, j⟩ with
  | (.ok t, s) => rfl
  | (.error (.failed f), s) => rfl
  | (.error .exhausted, s) => rfl

theorem obeys_interpret (program : List Node) :
    Obeys (fun call => c.enabled call.gate = true) (fun _ => True)
      (interpret steps host c program) := by
  refine ⟨fun j => ?_, fun _ => trivial⟩
  rw [final_interpret]
  exact lasting_gates.visit _ _ (.refl j)

theorem obeys_compile (source : Text) :
    Obeys (fun _ => True) (fun _ => True) (compile host source c) := by
  rw [compile_eq]
  exact .bind (obeys_compileImport _ _ _ _) fun _ => .pure

/-- All that compiling a template asks is asked by an import that it comes to. -/
theorem asks_compile {source : Text} {past : List Call} {call : Call}
    (h : (compile host source c).Asks j past call) :
    ∃ path t i u i', Reaches host (.root source c) j path t i ∧
      Comes host t i u (t.config.forSource t.content) i' ∧
      u.Asks host (t.config.forSource t.content) t.chain i' past call := by
  have hpure : ∀ program : List Node, Obeys (fun _ => True) (fun _ => True)
      (pure (program, c.forSource source) : Action (List Node × Config)) := fun _ => .pure
  rw [compile_eq] at h
  obtain h | ⟨_, _, -, h⟩ := asks_bind hpure h
  · obtain ⟨path, t, i, u, c', i', hreaches, hcomes, hasks⟩ := Task.asks_compile h
    obtain rfl := hcomes.eq_forSource
    exact ⟨path, t, i, u, i', hreaches, hcomes, hasks⟩
  · exact absurd h not_asks_pure

/-- Compiling asks what open gates of the importing files are before, and no command or variable;
rendering asks what open gates of the template are before; behind a closed gate there is one warning
and no text. -/
theorem gates_of_render (steps : Nat) (host : Host) (source : Text) (c : Config) (j : Journal) :
    j.calls <+: ((render steps host source c).final j).calls ∧
    (∀ past call, (compile host source c).Asks j past call →
      (call.gate = .net ∨ call.gate = .files ∨ call.gate = .eval) ∧
      ∃ path t i u i', Reaches host (.root source c) j path t i ∧
        Comes host t i u (t.config.forSource t.content) i' ∧
        u.Asks host (t.config.forSource t.content) t.chain i' past call ∧
        (t.config.forSource t.content).enabled .imports = true ∧
        (t.config.forSource t.content).enabled call.gate = true) ∧
    (∀ past call, (render steps host source c).Asks j past call →
      (compile host source c).Asks j past call ∨
      ∃ program k, (compile host source c).Runs j (program, c.forSource source) k ∧
        (interpret steps host (c.forSource source) program).Asks k past call ∧
        (c.forSource source).enabled call.gate = true) ∧
    ∀ k form l s d l' t f, Does (visit host (c.forSource source) k) l s form d l' t →
      d.gate? = some f → (c.forSource source).enabled f = false →
      (visit host (c.forSource source) (k + 1) (.mk form l)).outcome s = (.ok [],
        ⟨t.scopes, ⟨t.journal.diagnostics ++ [⟨.warning, (Notice.codeSkipped f).message, l'⟩],
          t.journal.calls⟩⟩) := by
  have hinterpret : ∀ p : List Node × Config, Obeys (fun _ => True) (fun _ => True)
      (interpret steps host p.2 p.1) :=
    fun p => (obeys_interpret p.1).mono (fun _ _ => trivial) fun _ h => h
  have hrender : render steps host source c =
      compile host source c >>= fun p => interpret steps host p.2 p.1 := rfl
  refine ⟨?_, fun past call h => ?_, fun past call h => ?_,
    fun k form l s d l' t f h hgate hf => ?_⟩
  · rw [hrender]
    exact (((obeys_compile source).bind hinterpret).grows j).prefix_calls
  · obtain ⟨path, t, i, u, i', hreaches, hcomes, hasks⟩ := asks_compile h
    obtain ⟨hkind, himports, hopen⟩ := hasks.enabled
    exact ⟨hkind, path, t, i, u, i', hreaches, hcomes, hasks, himports, hopen⟩
  · rw [hrender] at h
    obtain h | ⟨⟨program, c'⟩, k, hcompile, h⟩ := asks_bind hinterpret h
    · exact .inl h
    · obtain ⟨rfl, -⟩ := runs_compile.1 hcompile
      exact .inr ⟨program, k, hcompile, h, (obeys_interpret program).of_asks h⟩
  · rw [h.outcome_visit]
    exact Deed.outcome_of_closed hgate hf

theorem gates_of_render_exec : ∃ (host : Host) (source : Text) (c : Config) (program : List Node)
    (k k' : Journal),
    (compile host source c).Runs .empty (program, c.forSource source) k ∧
    (render 3 host source c).Runs .empty ['c', 'c'] k' ∧
    k'.calls = [.probe ['b'] true, .read ['b'], .probe "./b".toList true, .read "./b".toList] ∧
    (∃ path t i u i', Reaches host (.root source c) .empty path t i ∧
      Comes host t i u (t.config.forSource t.content) i' ∧
      u.Asks host (t.config.forSource t.content) t.chain i' [.probe ['b'] true] (.read ['b']) ∧
      (t.config.forSource t.content).enabled .files = true) ∧
    (c.forSource source).enabled .files = true ∧
    ∀ s, (visit host (c.forSource source) 2 (.mk (.exec (.mk (.raw ['x']) .start)) .start)).outcome
      s = (.ok [], ⟨s.scopes, ⟨s.journal.diagnostics ++
        [⟨.warning, (Notice.codeSkipped .exec).message, .start⟩], s.journal.calls⟩⟩) := by
  let host : Host := .offline fun _ => .ok [99]
  let c : Config := Config.initial.force Setting.fileEncoding "latin1".toList
  let name : Text := "stdin".toList
  have htemplate : tokenize Config.initial.delimiters
      "\\use\x7bb\x7d\\file\x7bb\x7d\\exec\x7bx\x7d".toList = .ok (Token.place .start
      [⟨.escape, ['\\']⟩, ⟨.commandName, "use".toList⟩, ⟨.argStart, ['{']⟩, ⟨.raw, ['b']⟩,
        ⟨.argEnd, ['}']⟩, ⟨.escape, ['\\']⟩, ⟨.commandName, "file".toList⟩, ⟨.argStart, ['{']⟩,
        ⟨.raw, ['b']⟩, ⟨.argEnd, ['}']⟩, ⟨.escape, ['\\']⟩, ⟨.commandName, "exec".toList⟩,
        ⟨.argStart, ['{']⟩, ⟨.raw, ['x']⟩, ⟨.argEnd, ['}']⟩]) := by
    rw [Config.delimiters_initial]
    decide +kernel
  let source : Text := "\\use\x7bb\x7d\\file\x7bb\x7d\\exec\x7bx\x7d".toList
  let group (text : Text) (col : Nat) : Node :=
    .mk (.group [.mk (.raw text) ⟨⟨0, col + 1⟩, none⟩]) ⟨⟨0, col⟩, none⟩
  let program : List Node := [.mk (.use (group ['b'] 4) none none) ⟨⟨0, 0⟩, none⟩,
    .mk (.file (group ['b'] 12)) ⟨⟨0, 7⟩, none⟩, .mk (.exec (group ['x'] 20)) ⟨⟨0, 15⟩, none⟩]
  have hread : (read source c).Runs .empty (program, c.restoreForced) .empty :=
    runs_read (by decide) htemplate rfl
  have hconfig : c.restoreForced = c.forSource source := read_forSource hread
  let u : Use := ⟨(group ['b'] 4).stamp name, none, none, ⟨⟨0, 0⟩, name⟩⟩
  let k : Journal := ((Journal.empty.call (.probe ['b'] true)).call (.read ['b'])).note
    (.importing ['b'] false) u.location
  let inner : Config := c.restoreForced.forImport ['b'] ['.'] []
  have hinner : inner.restoreForced.delimiters = Config.initial.delimiters := rfl
  have htokens : tokenize inner.restoreForced.delimiters ['c'] =
      .ok (Token.place .start [⟨.raw, ['c']⟩]) := by
    rw [hinner, Config.delimiters_initial]
    cbv
  have hcontent : (compileImport host 1 ['c'] inner [name, ['b']]).Runs k
      [.mk (.raw ['c']) ⟨⟨0, 0⟩, some ['b']⟩] k :=
    runs_bind.2 ⟨_, k, runs_read (by decide) htokens rfl, rfl⟩
  have hresolve : (u.resolve host c.restoreForced (compileImport host 1) [name]).Runs .empty
      [.mk (.raw ['c']) ⟨⟨0, 0⟩, some ['b']⟩] k := runs_within.2 hcontent
  have hcompile : (compile host source c).Runs .empty (_, c.restoreForced) k :=
    runs_bind.2 ⟨_, _, hread, runs_bind.2 ⟨_, _, runs_bind.2 ⟨_, _,
      runs_mapM.2 (.cons hresolve (.nil k)), runs_pure.2 ⟨rfl, rfl⟩⟩, runs_pure.2 ⟨rfl, rfl⟩⟩⟩
  let k' : Journal := ⟨k.diagnostics, k.calls ++ [.probe "./b".toList true, .read "./b".toList]⟩
  let w : Diagnostic := (Notice.codeSkipped .exec).diagnostic ⟨⟨0, 15⟩, name⟩
  have hrender : (render 3 host source c).Runs .empty ['c', 'c']
      ⟨k'.diagnostics ++ [w], k'.calls⟩ := runs_bind.2 ⟨_, _, hcompile, rfl⟩
  obtain ⟨-, hasked, hrendered, hclosed⟩ := gates_of_render 3 host source c .empty
  rw [hconfig] at hcompile
  refine ⟨host, source, c, _, k, _, hcompile, hrender, rfl, ?_, ?_, fun s => ?_⟩
  · have hcalls : (compile host source c).Asks .empty [.probe ['b'] true] (.read ['b']) :=
      ⟨List.nil_prefix, hcompile.final_eq ▸ List.prefix_rfl⟩
    obtain ⟨-, path, t, i, u, i', hreaches, hcomes, hasks, -, hopen⟩ := hasked _ _ hcalls
    exact ⟨path, t, i, u, i', hreaches, hcomes, hasks, hopen⟩
  · have hcalls : (render 3 host source c).Asks .empty
        (k.calls ++ [.probe "./b".toList true]) (.read "./b".toList) :=
      ⟨List.nil_prefix, hrender.final_eq ▸ List.prefix_rfl⟩
    obtain h | ⟨-, -, -, -, hopen⟩ := hrendered _ _ hcalls
    · have hle := (hcompile.final_eq ▸ h.2 : _ <+: k.calls).length_le
      simp at hle
    · exact hopen
  · exact hclosed 1 _ .start s (.command ['x']) .start s .exec (.command rfl) rfl
      (hconfig ▸ rfl)

end Rendering

end Stencil
