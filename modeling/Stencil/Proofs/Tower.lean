import Stencil.Proofs.Origins
import Stencil.Proofs.Pinning

/-! The failure of a compilation: what went wrong in the file that was being compiled, with one
layer around it for each import on the way to that file. -/
namespace Stencil

open Stencil.Action

namespace Failure

/-- A failure with the imports of a path around it, the first one outermost. -/
def along (path : List Passage) (f : Failure) : Failure :=
  path.foldr (fun p g => g.within p.asInclude) f

variable {f : Failure} {path : List Passage}

@[simp] theorem along_nil (f : Failure) : f.along [] = f := rfl

@[simp] theorem along_cons (p : Passage) (path : List Passage) (f : Failure) :
    f.along (p :: path) = (f.along path).within p.asInclude := rfl

theorem rootKind?_within (i : Include) (f : Failure) :
    (f.within i).rootKind? = f.rootKind?.or (some (.included i.target f)) := rfl

theorem along_eq (path : List Passage) (f : Failure) :
    f.along path = ⟨path.map Passage.asInclude ++ f.includes, f.cause, f.location⟩ := by
  induction path with
  | nil => rfl
  | cons p path ih =>
    rw [along_cons, ih]
    rfl

theorem rootKind?_along_importing {cause : ImportCause} (h : f.includes = [])
    (hcause : f.cause = .importing cause) : (f.along path).rootKind? = some (.own cause) := by
  induction path with
  | nil =>
    rw [along_nil, rootKind?, h, hcause]
    rfl
  | cons p path ih =>
    rw [along_cons, rootKind?_within, ih]
    rfl

/-- The root of any other failure is the innermost import around it. -/
theorem rootKind?_along (h : f.includes = []) (hcause : ∀ cause, f.cause ≠ .importing cause) :
    (f.along path).rootKind? = path.getLast?.map fun p => .included p.target f := by
  have hnone : f.rootKind? = none := by
    rw [rootKind?, h]
    unfold rootKindIn
    split
    · next cause heq => exact absurd heq (hcause cause)
    · rfl
  induction path with
  | nil => exact hnone
  | cons p path ih =>
    rw [along_cons, rootKind?_within, ih]
    cases path with
    | nil => rfl
    | cons q path =>
      rw [List.getLast?_cons_cons, List.getLast?_cons, Option.map_some]
      rfl

end Failure

variable {host : Host} {t t' : Task} {i j k : Journal} {path : List Passage} {p : Passage}

theorem exists_node_of_mem_importsOf {program : List Node} {c : Config} {u : Use}
    (hread : (read t.content t.config).Runs j (program, c) k) (hu : u ∈ importsOf c program) :
    ∃ n ∈ program, ∃ m : Node, m.Occurs n ∧ u.node = m.stamp c.fileName ∧
      u.location = ⟨m.location.position, some c.fileName⟩ := by
  obtain ⟨_, hstamped, hu⟩ := List.mem_flatMap.1 hu
  obtain ⟨n, hn, rfl⟩ := List.mem_map.1 hstamped
  obtain ⟨m, hm, hnode⟩ := (Node.occurs_of_mem_uses hu).exists_of_stamp
  exact ⟨n, hn, m, hm, hnode,
    (congrArg Node.location hnode).trans (read_knowsNoFile hread n hn m hm).location_stamp⟩

theorem Enters.exists_node (h : Enters host t j p t' i) :
    ∃ program c i', (read t.content t.config).Runs j (program, c) i' ∧
      p.use.says? host = some p.target ∧ ∃ n ∈ program, ∃ m : Node, m.Occurs n ∧
        p.use.node = m.stamp c.fileName ∧
        p.asInclude = ⟨p.target, ⟨m.location.position, some c.fileName⟩⟩ := by
  obtain ⟨hcomes, haim, henter⟩ := h
  obtain ⟨hbound, -⟩ := Use.runs_aim_some haim
  obtain ⟨hread, huses, hbefore⟩ := hcomes
  next u c a _ _ program before after contributions depth i' =>
  obtain ⟨n, hn, m, hm, hnode, hlocation⟩ :=
    exists_node_of_mem_importsOf hread (show u ∈ importsOf c program by simp [huses])
  exact ⟨program, c, i', hread, hbound.target, n, hn, m, hm, hnode,
    congrArg (Include.mk a.target) hlocation⟩

/-- Where a task fails, a task that it came to fails itself, inside the imports on the way. -/
theorem Task.exists_fails {depth : Nat} {f : Failure}
    (h : (t.compile host depth).Stops j (.failed f) k) :
    ∃ path t' i f₀, Reaches host t j path t' i ∧ t'.Fails host i (.failed f₀) k ∧
      f = f₀.along path := by
  induction depth generalizing t j f with
  | zero => cases (stops_throw.1 h).1
  | succ depth ih =>
    obtain ⟨hzero, -⟩ | hfails | ⟨p, t', i, d, henters, hd, hnested⟩ := stops_cases h
    · cases hzero
    · exact ⟨[], t, j, f, .here t j, hfails, rfl⟩
    · obtain rfl := Nat.succ.inj hd
      obtain ⟨g, hg, hinner⟩ | ⟨⟨⟩, -⟩ := stops_within.1 hnested
      obtain rfl := Stop.failed.inj hg
      obtain ⟨path, t'', i', f₀, hreaches, hfails, rfl⟩ := ih hinner
      exact ⟨p :: path, t'', i', f₀, .through henters hreaches, hfails, rfl⟩

/-- A compilation fails with what a file that it came to fails with itself, inside one layer for
each import of the path, with its target, position and file; the root is the failure of an import,
or the innermost layer. -/
theorem along_of_compile {source : Text} {c : Config} :
    (∀ f, (compile host source c).Stops j (.failed f) k →
      ∃ path t i f₀, Reaches host (.root source c) j path t i ∧ t.Fails host i (.failed f₀) k ∧
        f₀.includes = [] ∧ f = f₀.along path ∧
        f.includes = path.map Passage.asInclude ∧ f.cause = f₀.cause ∧ f.location = f₀.location ∧
        (∀ before p after, path = before ++ p :: after → ∃ t' i' program c' i'',
          Reaches host (.root source c) j before t' i' ∧
          (read t'.content t'.config).Runs i' (program, c') i'' ∧
          p.use.says? host = some p.target ∧ ∃ n ∈ program, ∃ m : Node, m.Occurs n ∧
            p.use.node = m.stamp c'.fileName ∧
            p.asInclude = ⟨p.target, ⟨m.location.position, some c'.fileName⟩⟩) ∧
        (∀ cause, f₀.cause = .importing cause → f.rootKind? = some (.own cause)) ∧
        ((∀ cause, f₀.cause ≠ .importing cause) →
          f.rootKind? = path.getLast?.map fun p => .included p.target f₀)) ∧
    ∀ path t i f₀, Reaches host (.root source c) j path t i → t.Fails host i (.failed f₀) k →
      (∃ k', (compile host source c).Stops j .exhausted k') ∨
        (compile host source c).Stops j (.failed (f₀.along path)) k := by
  constructor
  · intro f h
    obtain ⟨path, t, i, f₀, hreaches, hfails, rfl⟩ := Task.exists_fails (stops_root.1 h)
    have hincludes : f₀.includes = [] := by
      obtain ⟨cause, l, hs⟩ := hfails.exists_failed
      rw [Stop.failed.inj hs]
    refine ⟨path, t, i, f₀, hreaches, hfails, hincludes, rfl, ?_, ?_, ?_, ?_, ?_, ?_⟩
    · rw [Failure.along_eq, hincludes, List.append_nil]
    · rw [Failure.along_eq]
    · rw [Failure.along_eq]
    · rintro before p after rfl
      obtain ⟨t₁, i₁, t₂, i₂, hbefore, henters, -⟩ := hreaches.exists_enters
      obtain ⟨program, c', i', hread, hsays, hnode⟩ := henters.exists_node
      exact ⟨t₁, i₁, program, c', i', hbefore, hread, hsays, hnode⟩
    · exact fun cause hcause => Failure.rootKind?_along_importing hincludes hcause
    · exact fun hcause => Failure.rootKind?_along hincludes hcause
  · intro path t i f₀ hreaches hfails
    obtain ⟨least, hdeep⟩ := hfails.stops
    obtain ⟨least', hdeep'⟩ := hreaches.stops least hdeep
    rw [Failure.along_eq]
    simp only [stops_root]
    exact Task.stops_of_deep hdeep' _

/-- A file that is imported holds an expression that is never closed. -/
theorem along_of_compile_unterminated : ∃ (host : Host) (source : Text) (c : Config) (k : Journal)
    (f f₀ : Failure) (p : Passage), (compile host source c).Stops .empty (.failed f) k ∧
      f₀ = ⟨[], .lex .unterminated, ⟨⟨0, 0⟩, some ['b']⟩⟩ ∧
      f = f₀.within ⟨['b'], ⟨⟨0, 0⟩, some "stdin".toList⟩⟩ ∧
      f.rootKind? = some (.included ['b'] f₀) ∧
      ∃ t i, Reaches host (.root source c) .empty [p] t i ∧ t.Fails host i (.failed f₀) k := by
  let host : Host := .offline fun _ => .ok [96]
  let c : Config := Config.initial.force Setting.fileEncoding "latin1".toList
  let name : Text := "stdin".toList
  let source : Text := "\\use\x7bb\x7d".toList
  let target : Node := .mk (.group [.mk (.raw ['b']) ⟨⟨0, 5⟩, none⟩]) ⟨⟨0, 4⟩, none⟩
  have hread : (read source c).Runs .empty
      ([.mk (.use target none none) ⟨⟨0, 0⟩, none⟩], c.restoreForced) .empty :=
    runs_read_import rfl
  let u : Use := ⟨target.stamp name, none, none, ⟨⟨0, 0⟩, name⟩⟩
  let k : Journal := ((Journal.empty.call (.probe ['b'] true)).call (.read ['b'])).note
    (.importing ['b'] false) u.location
  let inner : Config := c.restoreForced.forImport ['b'] ['.'] []
  have hinner : inner.restoreForced.delimiters = Config.initial.delimiters := rfl
  have htokens : tokenize inner.restoreForced.delimiters [Char.ofNat 96] =
      .error ⟨.unterminated, ⟨0, 0⟩⟩ := by
    rw [hinner, Config.delimiters_initial]
    cbv
  let f₀ : Failure := ⟨[], .lex .unterminated, ⟨⟨0, 0⟩, some ['b']⟩⟩
  have hunread : (read [Char.ofNat 96] inner).Stops k (.failed f₀) k := by
    refine stops_bind.2 (.inr ⟨_, k, runs_preprocess (by decide), stops_bind.2 (.inl ?_)⟩)
    rw [htokens]
    rfl
  have hresolve : (u.resolve host c.restoreForced (compileImport host 1) [name]).Stops .empty
      (.failed (f₀.within ⟨['b'], u.location⟩)) k :=
    stops_within.2 (.inl ⟨f₀, rfl, stops_bind.2 (.inl hunread)⟩)
  have hstops : (compile host source c).Stops .empty
      (.failed (f₀.within ⟨['b'], u.location⟩)) k := by
    refine stops_bind.2 (.inr ⟨_, _, hread, stops_bind.2 (.inl (stops_bind.2 (.inl ?_)))⟩)
    exact stops_mapM.2 ⟨[], u, [], [], .empty, rfl, runs_pure.2 ⟨rfl, rfl⟩, hresolve⟩
  obtain ⟨htower, -⟩ := @along_of_compile host .empty k source c
  obtain ⟨path, t, i, f, hreaches, hfails, hincludes, -, hpath, hcause, hlocation, -, -, hroot⟩ :=
    htower _ hstops
  obtain ⟨includes, cause, location⟩ := f
  obtain rfl : includes = [] := hincludes
  obtain rfl : f₀.cause = cause := hcause
  obtain rfl : f₀.location = location := hlocation
  obtain ⟨p, rfl, hp⟩ := List.map_eq_singleton_iff.1 hpath.symm
  have hinnermost := hroot fun _ h => by cases h
  have htarget : p.target = ['b'] := congrArg Include.target hp
  rw [List.getLast?_singleton, Option.map_some, htarget] at hinnermost
  exact ⟨host, source, c, k, _, f₀, p, hstops, rfl, rfl, hinnermost, t, i, hreaches, hfails⟩

end Stencil
