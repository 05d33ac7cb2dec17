import Stencil.Proofs.Deeds

/-! Variables and functions in the same scopes, told apart by the mark of their names. What a call
of a variable gives and what an expression is given for it are found by two searches, which agree
as nothing but a text is ever bound to a variable. -/
namespace Stencil

open Stencil.Rendering

namespace Binding

/-- The text of a variable. -/
def text? : Binding → Option Text
  | text value => some value
  | function _ _ => none

/-- A name with the mark of variables stands for a text, any other for a function. -/
def Fits (name : Text) : Binding → Prop
  | text _ => name.head? = some Scopes.sigil
  | function _ _ => name.head? ≠ some Scopes.sigil

variable {name : Text} {b : Binding}

theorem Fits.exists_text (h : b.Fits name) (hsigil : name.head? = some Scopes.sigil) :
    ∃ value, b = text value := by
  cases b with
  | text value => exact ⟨value, rfl⟩
  | function params body => exact absurd hsigil h

theorem Fits.exists_function (h : b.Fits name) (hsigil : name.head? ≠ some Scopes.sigil) :
    ∃ params body, b = function params body := by
  cases b with
  | text value => exact absurd h hsigil
  | function params body => exact ⟨params, body, rfl⟩

end Binding

/-- All names of a scope stand for what their marks say. -/
def Scope.Divided (scope : Scope) : Prop := ∀ p ∈ scope, p.2.Fits p.1

namespace Scopes

/-- All names of all scopes stand for what their marks say. -/
def Divided (s : Scopes) : Prop := ∀ scope ∈ s.inner :: s.outer, scope.Divided

variable {s : Scopes} {i : Nat} {name : Text} {b : Binding} {scope : Scope}

@[simp] theorem head?_variableName (name : Text) : (variableName name).head? = some sigil := rfl

theorem Divided.every (h : s.Divided) : s.Every fun p => p.2.Fits p.1 := h

theorem divided_initial : initial.Divided := every_initial

theorem Divided.of_local? (h : s.Divided) (hb : s.local? i name = some b) : b.Fits name :=
  h.every.of_local? hb

end Scopes

section Keeping

variable {host : Host} {c : Config} {s : Session}

theorem divided_callBindings (names texts : List Text) (named : List (Text × Text)) :
    Scope.Divided (callBindings names texts named) := by
  intro p hp
  obtain hp | hp := List.mem_append.1 hp
  · obtain ⟨_, -, rfl⟩ := List.mem_map.1 hp
    exact Scopes.head?_variableName _
  · obtain ⟨_, -, rfl⟩ := List.mem_map.1 hp
    exact Scopes.head?_variableName _

/-- Whatever a program does, names stand for what their marks say. -/
theorem lasting_divided : Lasting host c fun s => s.scopes.Divided where
  opened names texts named hs := Session.every_opened hs (divided_callBindings names texts named)
  closed hs := Scopes.Every.pop hs
  done d l hs := Deed.every_run (Scopes.Divided.every hs) fun p hp => by
    cases hp with
    | assigned => exact Scopes.head?_variableName _
    | defined _ hsigil => exact hsigil

end Keeping

namespace Scopes

section Searching

variable {s : Scopes} {i k : Nat} {name key : Text} {b : Binding} {scope : Scope}
  {found : Entries Text Text}

theorem addVariables_function {params : List Text} {body : Node} :
    addVariables found ((key, .function params body) :: scope) = addVariables found scope := by
  cases key <;> rfl

theorem addVariables_text {value : Text} :
    addVariables found ((variableName key, .text value) :: scope) =
      addVariables (if found.has key then found else found.insert key value) scope := by
  cases hhas : found.has key <;> simp [addVariables, variableName, hhas]

theorem get?_addVariables (h : scope.Divided) : (addVariables found scope).get? name =
    (found.get? name).or ((scope.get? (variableName name)).bind Binding.text?) := by
  induction scope generalizing found with
  | nil => simp [addVariables, Entries.get?]
  | cons p scope ih =>
    obtain ⟨hp, hscope⟩ := List.forall_mem_cons.1 h
    obtain ⟨key, b⟩ := p
    cases b with
    | function params body =>
      have hkey : key ≠ variableName name := fun heq => hp (heq ▸ head?_variableName name)
      rw [addVariables_function, ih hscope, Entries.get?, if_neg hkey]
    | text value =>
      obtain ⟨key, rfl⟩ : ∃ rest, key = variableName rest := by
        cases key with
        | nil => cases hp
        | cons c rest => exact ⟨rest, congrArg (· :: rest) (Option.some.inj hp)⟩
      rw [addVariables_text, ih hscope, Entries.get?]
      by_cases hkey : key = name
      · subst hkey
        cases hfound : found.get? key with
        | none => simp [Entries.has, hfound, Entries.get?_insert, Binding.text?]
        | some other => simp [Entries.has, hfound]
      · have hname : variableName key ≠ variableName name := fun heq => hkey (List.cons.inj heq).2
        rw [if_neg hname]
        split
        · rfl
        · rw [Entries.get?_insert, if_neg (Ne.symm hkey)]

/-- The texts of variables are those that the search for a name gives. -/
theorem Divided.get?_variableTexts (h : s.Divided) :
    (s.variableTexts s.current).get? name =
      (s.lookup? s.current (variableName name)).bind Binding.text? := by
  unfold variableTexts lookup?
  rw [levels_current]
  have hall : ∀ scopes : List Scope, (∀ scope ∈ scopes, scope.Divided) → ∀ found,
      (scopes.foldl addVariables found).get? name = (found.get? name).or
        ((scopes.findSome? (Entries.get? (variableName name))).bind Binding.text?) := by
    intro scopes hscopes
    induction scopes with
    | nil => simp
    | cons scope scopes ih =>
      intro found
      obtain ⟨hscope, hrest⟩ := List.forall_mem_cons.1 hscopes
      rw [List.foldl_cons, ih hrest, get?_addVariables hscope, List.findSome?_cons]
      cases hget : scope.get? (variableName name) with
      | none => simp
      | some b =>
        obtain ⟨value, rfl⟩ := (hscope _ (Entries.mem_of_get? hget)).exists_text rfl
        simp [Binding.text?]
  exact hall _ h []

theorem levels_zero : ∃ scope, s.levels 0 = [scope] := by
  have hpos : 0 < s.depth := Nat.succ_pos _
  have hlast : s.current < (s.inner :: s.outer).length := Nat.lt_succ_self _
  refine ⟨(s.inner :: s.outer)[s.current], ?_⟩
  rw [levels, if_pos hpos, Nat.sub_zero, List.drop_eq_getElem_cons hlast,
    List.drop_eq_nil_of_le (Nat.succ_le_of_lt hlast)]

theorem levels_succ (hi : i + 1 < s.depth) : ∃ scope, s.levels (i + 1) = scope :: s.levels i := by
  have hparent : s.current - i = s.current - (i + 1) + 1 := by
    unfold depth at hi
    unfold current
    omega
  have hlt : s.current - (i + 1) < (s.inner :: s.outer).length := by
    rw [List.length_cons]
    exact Nat.lt_succ_of_le (Nat.sub_le _ _)
  refine ⟨(s.inner :: s.outer)[s.current - (i + 1)], ?_⟩
  rw [levels, if_pos hi, levels, if_pos (Nat.lt_of_succ_lt hi), hparent,
    List.drop_eq_getElem_cons hlt]

theorem findSome?_levels_eq_some_iff {α : Type} {f : Scope → Option α} {y : α} (hi : i < s.depth) :
    (s.levels i).findSome? f = some y ↔ ∃ k ≤ i, (s.scope? k).bind f = some y ∧
      ∀ m, k < m → m ≤ i → (s.scope? m).bind f = none := by
  induction i with
  | zero =>
    obtain ⟨scope, hlevels⟩ := s.levels_zero
    have hzero : (s.levels 0).findSome? f = (s.scope? 0).bind f := by simp [scope?, hlevels]
    rw [hzero]
    constructor
    · exact fun h => ⟨0, le_rfl, h, fun m hm hm' => absurd hm (Nat.not_lt.2 hm')⟩
    · rintro ⟨k, hk, h, -⟩
      rwa [Nat.le_zero.1 hk] at h
  | succ i ih =>
    obtain ⟨scope, hlevels⟩ := levels_succ hi
    have hsucc : (s.levels (i + 1)).findSome? f =
        ((s.scope? (i + 1)).bind f).or ((s.levels i).findSome? f) := by
      rw [scope?, hlevels, List.findSome?_cons]
      cases hfound : f scope <;> simp [hfound]
    rw [hsucc]
    cases hhere : (s.scope? (i + 1)).bind f with
    | some y' =>
      constructor
      · intro h
        exact ⟨i + 1, le_rfl, hhere.trans h, fun m hm hm' => absurd hm (Nat.not_lt.2 hm')⟩
      · rintro ⟨k, hk, h, hnone⟩
        obtain hlt | rfl := Nat.lt_or_eq_of_le hk
        · simp [hnone (i + 1) hlt le_rfl] at hhere
        · exact hhere.symm.trans h
    | none =>
      rw [Option.none_or, ih (Nat.lt_of_succ_lt hi)]
      constructor
      · rintro ⟨k, hk, h, hnone⟩
        refine ⟨k, Nat.le_succ_of_le hk, h, fun m hm hm' => ?_⟩
        obtain hlt | rfl := Nat.lt_or_eq_of_le hm'
        · exact hnone m hm (Nat.le_of_lt_succ hlt)
        · exact hhere
      · rintro ⟨k, hk, h, hnone⟩
        obtain hlt | rfl := Nat.lt_or_eq_of_le hk
        · exact ⟨k, Nat.le_of_lt_succ hlt, h, fun m hm hm' => hnone m hm (Nat.le_succ_of_le hm')⟩
        · simp [hhere] at h

/-- The search for a name ends in the innermost scope that binds it. -/
theorem lookup?_eq_some_iff (hi : i < s.depth) : s.lookup? i name = some b ↔
    ∃ k ≤ i, s.local? k name = some b ∧ ∀ m, k < m → m ≤ i → s.local? m name = none :=
  findSome?_levels_eq_some_iff hi

end Searching

end Scopes

section Reading

variable {host : Host} {c : Config} {steps : Nat} {program : List Node} {j : Journal} {s : Session}

theorem exists_plainName_eq_take (name : Text) : ∃ k, plainName name = name.take k := by
  unfold plainName Text.dropBack
  split
  · exact ⟨_, rfl⟩
  · exact ⟨_, (List.take_length ..).symm⟩

theorem Builtin.ofName?_variableName (name : Text) :
    ofName? (Scopes.variableName name) = none := by
  refine List.find?_eq_none.2 fun b _ hb => ?_
  obtain ⟨k, hk⟩ := exists_plainName_eq_take (Scopes.variableName name)
  have hhead : b.name.head? ≠ none ∧ b.name.head? ≠ some Scopes.sigil := by
    cases b <;> decide
  rw [of_decide_eq_true hb, hk] at hhead
  cases k with
  | zero => exact hhead.1 rfl
  | succ k => exact hhead.2 rfl

theorem Scopes.Divided.runs_visit (hs : s.scopes.Divided) (k : Nat) (name : Text) (l : Location)
    {t : Text} {u : Session} :
    (visit host c (k + 1) (.mk (.call (Scopes.variableName name) none []) l)).Runs s t u ↔
      s.scopes.lookup? s.scopes.current (Scopes.variableName name) = some (.text t) ∧ u = s := by
  have hready : Readies (visit host c k) none [] s [] [] s := ⟨s, rfl, rfl⟩
  unfold Runs
  rw [hready.outcome_visit]
  unfold runCall
  rw [Builtin.ofName?_variableName]
  dsimp only
  rw [outcome_bind, outcome_scopes]
  dsimp only
  cases hbound : s.scopes.lookup? s.scopes.current (Scopes.variableName name) with
  | none =>
    dsimp only
    split
    · simp
    · simp
  | some b =>
    obtain ⟨k, -, hlocal, -⟩ := (Scopes.lookup?_eq_some_iff (Nat.lt_succ_self _)).1 hbound
    obtain ⟨value, rfl⟩ := (hs.of_local? hlocal).exists_text rfl
    simp [Binding.params, eq_comm]

theorem outcome_evaluate {source : Text} {l : Location} (hopen : c.enabled .eval = true) :
    let filled := substitute (fun name => (s.scopes.variableTexts s.scopes.current).get? name) source
    (evaluate host c source l).outcome s = match host.evaluate filled with
      | .ok t => (.ok t, s.asked (.evaluate filled))
      | .error e =>
        (.error (.failed ⟨[], .render (.evaluation filled e.message), l⟩),
          s.asked (.evaluate filled)) := by
  intro filled
  have hbehind : ∃ a, evaluate host c source l = behindGate c .eval l (scopes >>= a) ∧
      a s.scopes = Rendering.call (.evaluate filled) >>= fun _ => match host.evaluate filled with
        | .ok t => pure t
        | .error e => fail (.evaluation filled e.message) l := ⟨_, rfl, rfl⟩
  obtain ⟨a, heq, ha⟩ := hbehind
  rw [heq, outcome_behindGate, if_pos hopen, outcome_bind, outcome_scopes]
  dsimp only
  rw [ha, outcome_bind, outcome_call]
  dsimp only
  split
  · rfl
  · rfl

theorem final_evaluate {source : Text} {l : Location} (hopen : c.enabled .eval = true) :
    (evaluate host c source l).final s = s.asked (.evaluate (substitute
      (fun name => (s.scopes.variableTexts s.scopes.current).get? name) source)) := by
  rw [final, outcome_evaluate hopen]
  split
  · rfl
  · rfl

/-- At every moment, names stand for what their marks say; and a call of a variable gives a text
exactly where expressions are given it, which is what the innermost scope says that binds the
name. -/
theorem variables_of_moment (h : Moment host c steps program j s) :
    (∀ i scope, s.scopes.scope? i = some scope → ∀ name b, (name, b) ∈ scope →
      (name.head? = some Scopes.sigil → ∃ value, b = .text value) ∧
      (name.head? ≠ some Scopes.sigil → ∃ params body, b = .function params body)) ∧
    let values := s.scopes.variableTexts s.scopes.current
    (∀ name k l t u,
      (visit host c (k + 1) (.mk (.call (Scopes.variableName name) none []) l)).Runs s t u ↔
        values.get? name = some t ∧ u = s) ∧
    (∀ name t, values.get? name = some t ↔ ∃ i ≤ s.scopes.current,
      s.scopes.local? i (Scopes.variableName name) = some (.text t) ∧
        ∀ m, i < m → m ≤ s.scopes.current →
          s.scopes.local? m (Scopes.variableName name) = none) ∧
    ∀ source l, c.enabled .eval = true → (evaluate host c source l).final s =
      s.asked (.evaluate (substitute (fun name => values.get? name) source)) := by
  have hs : s.scopes.Divided := lasting_divided.moment Scopes.divided_initial h
  have hvalues : ∀ name t, (s.scopes.variableTexts s.scopes.current).get? name = some t ↔
      s.scopes.lookup? s.scopes.current (Scopes.variableName name) = some (.text t) := by
    intro name t
    rw [hs.get?_variableTexts]
    cases s.scopes.lookup? s.scopes.current (Scopes.variableName name) with
    | none => simp
    | some b => cases b <;> simp [Binding.text?]
  refine ⟨fun i scope hscope name b hb => ?_, ?_, ?_, ?_⟩
  · have hfits : b.Fits name := hs.every.of_scope? hscope _ hb
    exact ⟨hfits.exists_text, hfits.exists_function⟩
  · intro name k l t u
    rw [hvalues, hs.runs_visit]
  · intro name t
    rw [hvalues]
    exact Scopes.lookup?_eq_some_iff (Nat.lt_succ_self _)
  · exact fun source l hopen => final_evaluate hopen

/-- A parameter hides the variable of the same name around the function. -/
theorem variables_of_moment_parameter : ∃ (host : Host) (c : Config) (program : List Node)
    (s : Session), Moment host c 3 program .empty s ∧ s.scopes.depth = 2 ∧
      s.scopes.lookup? 0 ['$', 'x'] = some (.text ['1']) ∧
      (∀ k l, (visit host c (k + 1) (.mk (.call ['$', 'x'] none []) l)).Runs s ['2'] s) ∧
      ∀ k l, (visit host c (k + 1) (.mk (.call ['$', 'y'] none []) l)).Runs s ['3'] s := by
  let host : Host := .offline fun _ => .error ""
  let text (t : Text) : Node := .mk (.raw t) .start
  let assign (name value : Text) : Node :=
    .mk (.call "var".toList none [text name, text value]) .start
  let body : Node := text []
  let before : List Node := [assign ['x'] ['1'], assign ['y'] ['3'],
    .mk (.define (text ['g']) ⟨[(['x'], none)], .start⟩ body) .start]
  let call : Node := .mk (.call ['g'] none [text ['2']]) .start
  let outer : Scope :=
    [(['$', 'x'], .text ['1']), (['$', 'y'], .text ['3']), (['g'], .function [['x']] body)]
  let t : Session := ⟨⟨outer, []⟩, .empty⟩
  have hbefore : (before.mapM (visit host .initial 3)).Runs ⟨.initial, .empty⟩ [[], [], []] t := rfl
  have hready : Readies (visit host .initial 2) none [text ['2']] t [['2']] [] t := ⟨t, rfl, rfl⟩
  have hcalls : Calls (visit host .initial 2) t call.form body
      (callBindings [['x']] [['2']] []) t := .intro hready rfl rfl rfl
  have hmoment : Moment host .initial 3 (before ++ [call]) .empty (t.opened _) :=
    .begins (.part (.statement hbefore) (.body hcalls (.here 2 body _)))
  obtain ⟨-, hruns, -⟩ := variables_of_moment hmoment
  exact ⟨host, .initial, before ++ [call], _, hmoment, rfl, rfl,
    fun k l => (hruns ['x'] k l _ _).2 ⟨rfl, rfl⟩, fun k l => (hruns ['y'] k l _ _).2 ⟨rfl, rfl⟩⟩

end Reading

end Stencil
