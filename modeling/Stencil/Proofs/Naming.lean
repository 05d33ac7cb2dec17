import Stencil.Proofs.Analysis
import Stencil.Proofs.Bodies
import Stencil.Proofs.Variables

/-! Names that the language keeps. Definitions and variables are refused them, and copies keep the
names they have; the parameters of a call are bound under any name. -/
namespace Stencil

open Stencil.Rendering

/-- Neither kept by the language nor begun like the name of a variable. -/
def Nameable (name : Text) : Prop :=
  isReserved name = false ∧ name.head? ≠ some Scopes.sigil

/-- A definition in a program makes a function with such parameters and body. -/
def Defined (program : List Node) (params : Params Node) (body : Node) : Prop :=
  ∃ n ∈ program, ∃ name l, (Node.mk (.define name params body) l).Occurs n

section Names

variable {name key : Text} {names texts : List Text} {named : List (Text × Text)}

theorem nameable_named (key : Text) : Nameable ('p' :: '_' :: key) := by
  obtain ⟨k, hk⟩ := exists_plainName_eq_take ('p' :: '_' :: key)
  have hkept : ∀ r ∈ reservedNames, r ≠ [] ∧ r ≠ ['p'] ∧ r.take 2 ≠ ['p', '_'] := by decide
  have hplain : plainName ('p' :: '_' :: key) ∉ reservedNames := by
    intro hmem
    obtain ⟨hzero, hone, htwo⟩ := hkept _ hmem
    rw [hk] at hzero hone htwo
    match k with
    | 0 => exact hzero rfl
    | 1 => exact hone rfl
    | k + 2 => exact htwo rfl
  refine ⟨?_, by simp [Scopes.sigil]⟩
  unfold isReserved
  exact decide_eq_false hplain

/-- What a call binds: variables, each for a parameter or for what the call names itself. -/
theorem mem_callBindings {p : Text × Binding} (h : p ∈ callBindings names texts named) :
    (∃ value, p.2 = .text value) ∧ ∃ name, p.1 = Scopes.variableName name ∧
      (name ∈ names ∨ Nameable name) := by
  obtain h | h := List.mem_append.1 h
  · obtain ⟨⟨name, value⟩, hname, rfl⟩ := List.mem_map.1 h
    exact ⟨⟨value, rfl⟩, name, rfl, .inl (List.of_mem_zip hname).1⟩
  · obtain ⟨⟨key, value⟩, -, rfl⟩ := List.mem_map.1 h
    exact ⟨⟨value, rfl⟩, _, rfl, .inr (nameable_named key)⟩

theorem mem_keys_callBindings (hlength : texts.length = names.length) (hname : name ∈ names) :
    Scopes.variableName name ∈ Entries.keys (callBindings names texts named) := by
  rw [← List.map_fst_zip hlength.ge] at hname
  obtain ⟨p, hp, rfl⟩ := List.mem_map.1 hname
  exact List.mem_map.2 ⟨_, List.mem_append_left _ (List.mem_map.2 ⟨p, hp, rfl⟩), rfl⟩

end Names

section Keeping

variable {host : Host} {c : Config} {steps k : Nat} {program : List Node} {j : Journal}
  {form : Form Node} {l : Location} {body : Node} {bindings : Scope} {s t u : Session}
  {key : Text} {b : Binding}

theorem defined_iff {params : Params Node} : Defined program params body ↔
    ∃ name l, (Node.mk (.define name params body) l).Occurs (.mk (.group program) .start) := by
  constructor
  · rintro ⟨n, hn, name, l, h⟩
    exact ⟨name, l, .inside (by simpa using hn) h⟩
  · rintro ⟨name, l, _ | ⟨hq, h⟩⟩
    exact ⟨_, by simpa using hq, name, l, h⟩

/-- How a program may bind a name. -/
def Admits (program : List Node) (p : Text × Binding) : Prop :=
  (p.1.head? ≠ some Scopes.sigil → isReserved p.1 = false) ∧
    ∀ name, p.1 = Scopes.variableName name →
      Nameable name ∨ ∃ params body, Defined program params body ∧ name ∈ params.keys

theorem admits_variable {name : Text} (h : Nameable name ∨
    ∃ params body, Defined program params body ∧ name ∈ params.keys) :
    Admits program (Scopes.variableName name, b) :=
  ⟨fun hsigil => absurd rfl hsigil, fun _ heq => (List.cons.inj heq).2 ▸ h⟩

/-- A program binds names in no other way, and only functions that it defines. -/
theorem lastingOn_admits : LastingOn host c (fun n => n.Occurs (.mk (.group program) .start))
    fun s => s.scopes.Every fun p =>
      Admits program p ∧ p.2.MadeIn (.mk (.group program) .start) := by
  refine lastingOn_every (fun _ h => h.2) ?_ ?_ ?_
  · rintro params texts named ⟨name, body, l, hdefine⟩ ⟨key, b⟩ hp
    obtain ⟨⟨value, rfl⟩, name, rfl, hname⟩ := mem_callBindings hp
    refine ⟨admits_variable (hname.symm.imp_right fun hname => ?_), nofun⟩
    exact ⟨params, body, defined_iff.2 ⟨_, l, hdefine⟩, hname⟩
  · exact fun name value hname hsigil => ⟨admits_variable (.inl ⟨hname, hsigil⟩), nofun⟩
  · intro name params body hmade hname hsigil
    refine ⟨⟨fun _ => hname, ?_⟩, hmade⟩
    rintro name rfl
    exact absurd rfl hsigil

theorem isSome_local?_opened {names texts : List Text} {named : List (Text × Text)} {name : Text}
    (hlength : texts.length = names.length) (hname : ¬ Nameable name) :
    ((u.opened (callBindings names texts named)).scopes.local? (u.scopes.current + 1)
      (Scopes.variableName name)).isSome ↔ name ∈ names := by
  have hcurrent : u.scopes.current + 1 =
      (u.opened (callBindings names texts named)).scopes.current := by
    rw [Session.scopes_opened]
    rfl
  rw [hcurrent, Scopes.local?, Scopes.levels_current, Session.scopes_opened, List.head?_cons,
    Option.bind_some, Option.isSome_iff_ne_none, ne_eq, Entries.get?_eq_none_iff, not_not,
    Entries.mem_keys_insertAll, or_iff_right (show _ ∉ Entries.keys [] from List.not_mem_nil)]
  constructor
  · intro hkey
    obtain ⟨p, hp, heq⟩ := List.mem_map.1 hkey
    obtain ⟨-, name', heq', hbound⟩ := mem_callBindings hp
    obtain rfl : name' = name := (List.cons.inj (heq'.symm.trans heq)).2
    exact hbound.resolve_right hname
  · exact mem_keys_callBindings hlength

/-- At every moment, no scope binds a name that the language keeps, but for a parameter of that name
of a function that the program defines; and a call of that function does bind it. -/
theorem names_of_moment :
    (∀ s, Moment host c steps program j s → ∀ i scope, s.scopes.scope? i = some scope →
      ∀ key b, (key, b) ∈ scope →
        (key.head? ≠ some Scopes.sigil → isReserved key = false) ∧
        ∀ name, key = Scopes.variableName name → Nameable name ∨
          ∃ params body, Defined program params body ∧ name ∈ params.keys) ∧
    ∀ k form l t body bindings u,
      Visits host c (steps + 1) (.mk (.group program) .start) ⟨.initial, j⟩ (k + 1) (.mk form l) t →
      Calls (visit host c k) t form body bindings u →
      Moment host c steps program j (u.opened bindings) ∧
      ∃ params, Defined program params body ∧ ∀ name, ¬ Nameable name →
        (((u.opened bindings).scopes.local? (u.scopes.current + 1)
          (Scopes.variableName name)).isSome ↔ name ∈ params.keys) := by
  constructor
  · intro s h i scope hscope key b hb
    exact ((lastingOn_admits.passes h (.here _) Scopes.every_initial).of_scope? hscope _ hb).1
  · intro k form l t body bindings u hway hcalls
    obtain ⟨hn, ht⟩ := lastingOn_made.visits hway (.here _) Scopes.every_initial
    have hu := hcalls.of ht (lastingOn_made.visited hn)
    have hopened := Passes.begins (hway.trans (.body hcalls (.here k body _)))
    obtain ⟨name, params, l', texts, named, hdefine, hlength, rfl⟩ := hcalls.exists_define hu
    exact ⟨hopened, params, defined_iff.2 ⟨name, l', hdefine⟩,
      fun name hname => isSome_local?_opened hlength hname⟩

theorem calls_parameter : ∃ (host : Host) (program : List Node) (form : Form Node) (l : Location)
    (body : Node) (s : Session),
    (compile host "\\f[if]\x7bg\x7d\x7b\\$if\x7d\\g\x7bx\x7d".toList .initial).Runs .empty
      (program, .initial) .empty ∧
    Visits host .initial 4 (.mk (.group program) .start) ⟨.initial, .empty⟩ 3 (.mk form l) s ∧
    Calls (visit host .initial 2) s form body
      (callBindings ["if".toList] [['x']] []) s ∧ s.scopes.current = 0 := by
  let host : Host := .offline fun _ => .error ""
  let source : Text := "\\f[if]\x7bg\x7d\x7b\\$if\x7d\\g\x7bx\x7d".toList
  have htokens : tokenize Config.initial.delimiters source = .ok (Token.place .start
      [⟨.escape, ['\\']⟩, ⟨.commandName, ['f']⟩, ⟨.paramStart, ['[']⟩, ⟨.paramKey, "if".toList⟩,
        ⟨.paramEnd, [']']⟩, ⟨.argStart, ['{']⟩, ⟨.raw, ['g']⟩, ⟨.argEnd, ['}']⟩,
        ⟨.argStart, ['{']⟩, ⟨.escape, ['\\']⟩, ⟨.commandName, "$if".toList⟩, ⟨.argEnd, ['}']⟩,
        ⟨.escape, ['\\']⟩, ⟨.commandName, ['g']⟩, ⟨.argStart, ['{']⟩, ⟨.raw, ['x']⟩,
        ⟨.argEnd, ['}']⟩]) := by
    rw [Config.delimiters_initial]
    decide +kernel
  let place (file : Option Text) (col : Nat) : Location := ⟨⟨0, col⟩, file⟩
  let body (file : Option Text) : Node :=
    .mk (.group [.mk (.call "$if".toList none []) (place file 10)]) (place file 9)
  let define (file : Option Text) : Node := .mk (.define
    (.mk (.group [.mk (.raw ['g']) (place file 7)]) (place file 6))
    ⟨[("if".toList, none)], place file 2⟩ (body file)) (place file 0)
  let call (file : Option Text) : Node := .mk (.call ['g'] none
    [.mk (.group [.mk (.raw ['x']) (place file 18)]) (place file 17)]) (place file 15)
  have hread : (read source .initial).Runs .empty ([define none, call none], .initial) .empty :=
    runs_read (by decide) htokens rfl
  let name : Option Text := some "stdin".toList
  have hanalyze : (analyze host .initial [define none, call none]).Runs .empty
      [define name, call name] .empty := Action.runs_bind.2 ⟨_, _, Action.runs_mapM.2 (.nil _), rfl⟩
  have hcompile : (compile host source .initial).Runs .empty ([define name, call name], .initial)
      .empty := Action.runs_bind.2 ⟨_, _, hread, Action.runs_bind.2 ⟨_, _, hanalyze, rfl⟩⟩
  let s : Session := ⟨⟨[(['g'], .function ["if".toList] (body name))], []⟩, .empty⟩
  have hbefore : ([define name].mapM (visit host .initial 3)).Runs ⟨.initial, .empty⟩ [[]] s := rfl
  have hready : Readies (visit host .initial 2) none
      [.mk (.group [.mk (.raw ['x']) (place name 18)]) (place name 17)] s [['x']] [] s :=
    ⟨s, rfl, rfl⟩
  have hway : Visits host .initial 4 (.mk (.group [define name, call name]) .start)
      ⟨.initial, .empty⟩ 3 (call name) s := .part (.statement hbefore) (.here 3 _ s)
  have hcalls : Calls (visit host .initial 2) s (call name).form (body name)
      (callBindings ["if".toList] [['x']] []) s := .intro hready rfl rfl rfl
  exact ⟨host, _, _, _, body name, s, hcompile, hway, hcalls, rfl⟩

theorem not_nameable_if : ¬ Nameable "if".toList := fun h => absurd h.1 (by decide)

/-- The scope of that call binds a name that is refused to variables. -/
theorem names_of_moment_parameter : ∃ (host : Host) (program : List Node) (s : Session),
    (compile host "\\f[if]\x7bg\x7d\x7b\\$if\x7d\\g\x7bx\x7d".toList .initial).Runs .empty
      (program, .initial) .empty ∧
    Moment host .initial 3 program .empty s ∧
    (s.scopes.local? 1 (Scopes.variableName "if".toList)).isSome ∧
    ∃ params body, Defined program params body ∧ "if".toList ∈ params.keys := by
  obtain ⟨host, program, form, l, body, s, hcompile, hway, hcalls, hcurrent⟩ := calls_parameter
  obtain ⟨hadmits, hopened⟩ := @names_of_moment host .initial 3 program .empty
  obtain ⟨hmoment, -⟩ := hopened _ _ _ _ _ _ _ hway hcalls
  have hlocal := (@isSome_local?_opened s ["if".toList] [['x']] [] _ rfl not_nameable_if).2
    (List.mem_singleton_self _)
  rw [hcurrent] at hlocal
  obtain ⟨b, hb⟩ := Option.isSome_iff_exists.1 hlocal
  obtain ⟨scope, hscope, hget⟩ := Option.bind_eq_some_iff.1 hb
  obtain ⟨-, hnames⟩ := hadmits _ hmoment 1 scope hscope _ b (Entries.mem_of_get? hget)
  exact ⟨host, program, _, hcompile, hmoment, hlocal, (hnames _ rfl).resolve_left not_nameable_if⟩

/-- A parameter is bound under a name that the language keeps. -/
theorem parameter_not_nameable :
    ¬ ∀ (host : Host) (source : Text) (c c' : Config) (program : List Node) (j k : Journal)
      (steps : Nat) (s : Session), (compile host source c).Runs j (program, c') k →
      Moment host c' steps program k s → ∀ i scope, s.scopes.scope? i = some scope →
        ∀ key b, (key, b) ∈ scope → ∀ name, key = Scopes.variableName name → Nameable name := by
  intro hall
  obtain ⟨host, program, form, l, body, s, hcompile, hway, hcalls, -⟩ := calls_parameter
  have hmoment : Moment host .initial 3 program .empty (s.opened _) :=
    .begins (hway.trans (.body hcalls (.here 2 body _)))
  have hlocal := (@isSome_local?_opened s ["if".toList] [['x']] [] _ rfl not_nameable_if).2
    (List.mem_singleton_self _)
  obtain ⟨b, hb⟩ := Option.isSome_iff_exists.1 hlocal
  obtain ⟨scope, hscope, hget⟩ := Option.bind_eq_some_iff.1 hb
  exact not_nameable_if
    (hall _ _ _ _ _ _ _ _ _ hcompile hmoment _ scope hscope _ b (Entries.mem_of_get? hget) _ rfl)

end Keeping

end Stencil
