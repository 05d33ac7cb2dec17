import Stencil.Proofs.Deeds

/-! Scopes in which functions have other bodies. What a construct does itself depends on the names
and texts that are bound, not on the bodies of functions. -/
namespace Stencil

open Stencil.Rendering

namespace Entries

variable {κ α β : Type} [DecidableEq κ] (f : α → β)

/-- Every value changed by `f`, under the same key. -/
def mapValues (e : Entries κ α) : Entries κ β := e.map fun p => (p.1, f p.2)

variable (e : Entries κ α) (key : κ)

@[simp] theorem get?_mapValues : (e.mapValues f).get? key = (e.get? key).map f := by
  induction e with
  | nil => rfl
  | cons p e ih =>
    by_cases h : p.1 = key
    · simp [mapValues, get?, h]
    · simpa [mapValues, get?, h] using ih

theorem insert_mapValues (value : α) :
    (e.mapValues f).insert key (f value) = (e.insert key value).mapValues f := by
  induction e with
  | nil => rfl
  | cons p e ih =>
    by_cases h : p.1 = key
    · simp [mapValues, insert, h]
    · simpa [mapValues, insert, h] using ih

theorem erase_mapValues : (e.mapValues f).erase key = (e.erase key).mapValues f := by
  induction e with
  | nil => rfl
  | cons p e ih =>
    by_cases h : p.1 = key
    · simpa [mapValues, erase, h] using ih
    · simpa [mapValues, erase, h] using ih

theorem insertAll_mapValues (more : Entries κ α) :
    (e.mapValues f).insertAll (mapValues f more) = (e.insertAll more).mapValues f := by
  induction more generalizing e with
  | nil => rfl
  | cons p more ih =>
    calc (e.mapValues f).insertAll (mapValues f (p :: more))
        = ((e.insert p.1 p.2).mapValues f).insertAll (mapValues f more) := by
          rw [← insert_mapValues]
          rfl
      _ = (e.insertAll (p :: more)).mapValues f := ih _

end Entries

/-- The binding with another body, if it is a function. -/
def Binding.mapBody (f : Node → Node) : Binding → Binding
  | text value => text value
  | function params body => function params (f body)

@[simp] theorem Binding.params_mapBody (f : Node → Node) (b : Binding) :
    (b.mapBody f).params = b.params := by
  cases b <;> rfl

namespace Scopes

variable (f : Node → Node)

/-- The scopes with other bodies of functions. -/
def mapBodies (s : Scopes) : Scopes :=
  ⟨s.inner.mapValues (Binding.mapBody f), s.outer.map (Entries.mapValues (Binding.mapBody f))⟩

variable (s : Scopes) (i : Nat) (name : Text) (b : Binding)

@[simp] theorem current_mapBodies : (s.mapBodies f).current = s.current := by
  simp [current, mapBodies]

@[simp] theorem depth_mapBodies : (s.mapBodies f).depth = s.depth := by
  simp [depth, mapBodies]

@[simp] theorem parent?_mapBodies : (s.mapBodies f).parent? i = s.parent? i := by
  simp [parent?]

theorem levels_mapBodies : (s.mapBodies f).levels i =
    (s.levels i).map (Entries.mapValues (Binding.mapBody f)) := by
  unfold levels
  rw [depth_mapBodies, current_mapBodies]
  split
  · rw [List.map_drop]
    rfl
  · rfl

@[simp] theorem local?_mapBodies :
    (s.mapBodies f).local? i name = (s.local? i name).map (Binding.mapBody f) := by
  unfold local?
  rw [levels_mapBodies, List.head?_map]
  cases (s.levels i).head? with
  | none => rfl
  | some scope => exact Entries.get?_mapValues _ scope name

@[simp] theorem lookup?_mapBodies :
    (s.mapBodies f).lookup? i name = (s.lookup? i name).map (Binding.mapBody f) := by
  unfold lookup?
  rw [levels_mapBodies]
  induction s.levels i with
  | nil => rfl
  | cons scope scopes ih =>
    rw [List.map_cons, List.findSome?_cons, List.findSome?_cons, Entries.get?_mapValues]
    cases scope.get? name with
    | none => exact ih
    | some b => rfl

theorem modify_mapBodies {change change' : Scope → Scope}
    (h : ∀ scope : Scope, change' (scope.mapValues (Binding.mapBody f)) =
      (change scope).mapValues (Binding.mapBody f)) :
    (s.mapBodies f).modify i change' = (s.modify i change).mapBodies f := by
  have hlist : ∀ (scopes : List Scope) (k : Nat),
      (scopes.map (Entries.mapValues (Binding.mapBody f))).modify k change' =
        (scopes.modify k change).map (Entries.mapValues (Binding.mapBody f)) := by
    intro scopes k
    induction scopes generalizing k with
    | nil => simp
    | cons scope scopes ih =>
      cases k with
      | zero => simp [h]
      | succ k => simp [ih]
  unfold modify
  rw [depth_mapBodies, current_mapBodies]
  split
  · have hmodify := hlist (s.inner :: s.outer) (s.current - i)
    rw [List.map_cons] at hmodify
    simp only [mapBodies] at hmodify ⊢
    rw [hmodify]
    cases (s.inner :: s.outer).modify (s.current - i) change <;> rfl
  · rfl

theorem define_mapBodies : (s.mapBodies f).define i name (b.mapBody f) =
    (s.define i name b).mapBodies f :=
  s.modify_mapBodies f i fun scope => scope.insert_mapValues _ name b

theorem erase_mapBodies : (s.mapBodies f).erase i name = (s.erase i name).mapBodies f :=
  s.modify_mapBodies f i fun scope => scope.erase_mapValues _ name

theorem pop_mapBodies : (s.mapBodies f).pop = s.pop.mapBodies f := by
  obtain ⟨inner, outer⟩ := s
  cases outer <;> rfl

@[simp] theorem variableTexts_mapBodies :
    (s.mapBodies f).variableTexts i = s.variableTexts i := by
  have hscope : ∀ (found : Entries Text Text) (scope : Scope),
      addVariables found (scope.mapValues (Binding.mapBody f)) = addVariables found scope := by
    intro found scope
    unfold addVariables Entries.mapValues
    rw [List.foldl_map]
    congr 1
    funext found p
    obtain ⟨name, b⟩ := p
    cases b <;> cases name <;> rfl
  unfold variableTexts
  rw [levels_mapBodies, List.foldl_map]
  simp only [hscope]

end Scopes

namespace Session

variable (f : Node → Node) (s : Session)

/-- The session with other bodies of functions. -/
def mapBodies : Session := s.withScopes (s.scopes.mapBodies f)

@[simp] theorem scopes_mapBodies : (s.mapBodies f).scopes = s.scopes.mapBodies f := rfl

@[simp] theorem journal_mapBodies : (s.mapBodies f).journal = s.journal := rfl

theorem closed_mapBodies : (s.mapBodies f).closed = s.closed.mapBodies f := by
  unfold closed mapBodies
  rw [scopes_withScopes, Scopes.pop_mapBodies]
  rfl

theorem opened_mapBodies (names texts : List Text) (named : List (Text × Text)) :
    (s.mapBodies f).opened (callBindings names texts named) =
      (s.opened (callBindings names texts named)).mapBodies f := by
  have htexts : Entries.mapValues (Binding.mapBody f) (callBindings names texts named) =
      callBindings names texts named := by
    simp [Entries.mapValues, callBindings, Function.comp_def, Binding.mapBody]
  have hscopes : ((s.mapBodies f).opened (callBindings names texts named)).scopes =
      ((s.opened (callBindings names texts named)).scopes).mapBodies f := by
    rw [scopes_opened, scopes_opened]
    unfold Scopes.mapBodies
    rw [← Entries.insertAll_mapValues, htexts]
    rfl
  exact congrArg (Session.mk · s.journal) hscopes

end Session

namespace Rendering

variable {α β : Type} {f : Node → Node}

/-- With other bodies of functions, `b` ends as `a` does and leaves the session of `a`, with other
bodies. -/
def Blind (f : Node → Node) (a b : Rendering α) : Prop :=
  ∀ s : Session, b.outcome (s.mapBodies f) = ((a.outcome s).1, (a.final s).mapBodies f)

theorem blind_pure (x : α) : Blind f (pure x : Rendering α) (pure x) := fun _ => rfl

theorem blind_fail (cause : RenderCause) (l : Location) :
    Blind f (fail cause l : Rendering α) (fail cause l) := fun _ => rfl

theorem blind_note (n : Notice) (l : Location) : Blind f (note n l) (note n l) := fun _ => rfl

theorem blind_call (call : Call) : Blind f (Rendering.call call) (Rendering.call call) :=
  fun _ => rfl

theorem blind_answers (host : Host) : Blind f (answers host) (answers host) := fun _ => rfl

theorem blind_onScopes {g g' : Scopes → Scopes}
    (h : ∀ s, g' (s.mapBodies f) = (g s).mapBodies f) : Blind f (onScopes g) (onScopes g') := by
  intro s
  rw [outcome_onScopes, Session.scopes_mapBodies, h]
  rfl

theorem blind_define (name : Text) (b : Binding) :
    Blind f (define name b) (define name (b.mapBody f)) :=
  blind_onScopes fun s => by rw [Scopes.current_mapBodies, Scopes.define_mapBodies]

variable {a b : Rendering α} {k k' : α → Rendering β}

theorem Blind.bind (h : Blind f a b) (hk : ∀ x, Blind f (k x) (k' x)) :
    Blind f (a >>= k) (b >>= k') := by
  intro s
  unfold final
  rw [outcome_bind, outcome_bind, h s]
  unfold final
  match a.outcome s with
  | (.ok x, t) => exact hk x t
  | (.error e, t) => rfl

theorem blind_fail_bind {cause : RenderCause} {l : Location} :
    Blind f (fail cause l >>= k) (fail cause l >>= k') := fun _ => rfl

theorem blind_scopes {k k' : Scopes → Rendering β} (hk : ∀ s, Blind f (k s) (k' (s.mapBodies f))) :
    Blind f (scopes >>= k) (scopes >>= k') := by
  intro s
  unfold final
  rw [outcome_bind, outcome_bind]
  exact hk s.scopes s

end Rendering

/-- The deed with another body of the function that it defines, if it defines one. -/
def Deed.mapBody (f : Node → Node) : Deed → Deed
  | define name params body => define name params (f body)
  | d => d

section Deeds

variable {host : Host} {c : Config} {l : Location} {f : Node → Node}

theorem blind_behindGate {feature : Feature} {a b : Rendering Text} (h : Blind f a b) :
    Blind f (behindGate c feature l a) (behindGate c feature l b) := by
  intro s
  unfold final
  rw [outcome_behindGate, outcome_behindGate]
  split
  · exact h s
  · rfl

theorem blind_decodeContent (bytes : Bytes) :
    Blind f (decodeContent c bytes l) (decodeContent c bytes l) := by
  unfold decodeContent
  split
  · exact blind_pure _
  · exact (blind_note _ _).bind fun _ => blind_pure _

theorem blind_checkName (name : Text) : Blind f (checkName name l) (checkName name l) := by
  unfold checkName
  split
  · exact blind_fail _ _
  · exact blind_pure _

theorem blind_checkSigil (name : Text) : Blind f (checkSigil name l) (checkSigil name l) := by
  unfold checkSigil
  split
  · exact blind_fail _ _
  · exact blind_pure _

theorem blind_noteMissing (name : Text) : Blind f (noteMissing name l) (noteMissing name l) := by
  unfold noteMissing
  refine blind_scopes fun s => ?_
  simp only [Scopes.current_mapBodies, Scopes.local?_mapBodies, Option.isSome_map]
  split
  · exact blind_note _ _
  · exact blind_note _ _

theorem blind_runBuiltin (b : Builtin) (args : List Text) :
    Blind f (runBuiltin host c b args l) (runBuiltin host c b args l) := by
  match b, args with
  | .var, [name, value] =>
    exact (blind_checkName _).bind fun _ => (blind_checkSigil _).bind fun _ =>
      (blind_define _ (.text value)).bind fun _ => blind_pure _
  | .toParent, [name] =>
    refine (blind_checkName _).bind fun _ => blind_scopes fun s => ?_
    simp only [Scopes.current_mapBodies, Scopes.local?_mapBodies, Scopes.parent?_mapBodies]
    cases s.local? s.current name.trim with
    | none => exact (blind_noteMissing _).bind fun _ => blind_pure _
    | some b =>
      cases s.parent? s.current with
      | none => exact (blind_note _ _).bind fun _ => blind_pure _
      | some parent =>
        exact (blind_onScopes fun s => s.define_mapBodies f parent _ b).bind fun _ => blind_pure _
  | .toChild, [name] =>
    refine (blind_checkName _).bind fun _ => blind_scopes fun s => ?_
    simp only [Scopes.current_mapBodies, Scopes.local?_mapBodies, Scopes.parent?_mapBodies]
    cases s.parent? s.current with
    | none => exact (blind_note _ _).bind fun _ => blind_pure _
    | some parent =>
      dsimp only
      cases s.local? parent name.trim with
      | none => exact (blind_note _ _).bind fun _ => blind_pure _
      | some b => exact (blind_define _ b).bind fun _ => blind_pure _
  | .del, [name] =>
    refine (blind_checkName _).bind fun _ => blind_scopes fun s => ?_
    simp only [Scopes.current_mapBodies, Scopes.local?_mapBodies, Option.isSome_map]
    split
    · refine (blind_onScopes fun s => ?_).bind fun _ => blind_pure _
      rw [Scopes.current_mapBodies, Scopes.erase_mapBodies]
    · exact (blind_noteMissing _).bind fun _ => blind_pure _
  | .env, [name] =>
    refine blind_behindGate ((blind_call _).bind fun _ => ?_)
    split
    · exact blind_pure _
    · exact (blind_note _ _).bind fun _ => blind_pure _
  | .halt, [] | .halt, [_] | .halt, _ :: _ :: _ => exact blind_fail _ _
  | .var, [] | .var, [_] | .var, _ :: _ :: _ :: _ => exact blind_fail _ _
  | .toParent, [] | .toParent, _ :: _ :: _ | .toChild, [] | .toChild, _ :: _ :: _ =>
    exact blind_fail _ _
  | .del, [] | .del, _ :: _ :: _ | .env, [] | .env, _ :: _ :: _ => exact blind_fail _ _

/-- What a construct does itself does not depend on the bodies of functions. -/
theorem Deed.blind_run (d : Deed) :
    Blind f (d.run host c l) ((d.mapBody f).run host c l) := by
  cases d with
  | url address =>
    refine blind_behindGate ((blind_answers host).bind fun now => (blind_call _).bind fun _ => ?_)
    split
    · exact blind_decodeContent _
    · exact blind_fail _ _
  | file target =>
    refine blind_behindGate ((blind_answers host).bind fun now => (blind_call _).bind fun _ => ?_)
    dsimp only
    split
    · exact blind_fail_bind
    · refine (blind_answers host).bind fun now => (blind_call _).bind fun _ => ?_
      split
      · exact blind_decodeContent _
      · exact blind_fail _ _
  | command text =>
    refine blind_behindGate ((blind_answers host).bind fun now => (blind_call _).bind fun _ => ?_)
    split
    · exact blind_pure _
    · exact blind_fail _ _
  | expression source =>
    refine blind_behindGate (blind_scopes fun s => ?_)
    simp only [Scopes.current_mapBodies, Scopes.variableTexts_mapBodies]
    refine (blind_call _).bind fun _ => ?_
    split
    · exact blind_pure _
    · exact blind_fail _ _
  | builtin b args => exact blind_runBuiltin b args
  | define name params body =>
    exact (blind_checkName _).bind fun _ => (blind_checkSigil _).bind fun _ =>
      (blind_define _ (.function params body)).bind fun _ => blind_pure _

end Deeds

end Stencil
