import Stencil.Proofs.Frame
import Stencil.Proofs.Heading
import Stencil.Proofs.Naming
import Stencil.Proofs.Trail

/-! Calls of functions that a program defines. A binding stays until its scope is closed or a
construct edits it, and until then the calls that see it come to it. -/
namespace Stencil

open Stencil.Rendering

/-- A construct binds `name` in scope `i`, or takes it out there. -/
inductive Deed.Edits (i : Nat) (name : Text) (s : Scopes) : Deed → Prop where
  | assigned {arg value : Text} (hname : Scopes.variableName arg.trim = name)
      (hi : s.current = i) : Edits i name s (.builtin .var [arg, value])
  | defined {params : List Text} {body : Node} (hi : s.current = i) :
      Edits i name s (.define name params body)
  | exported {arg : Text} (hname : arg.trim = name) (hi : s.parent? s.current = some i)
      (hbound : (s.local? s.current name).isSome) : Edits i name s (.builtin .toParent [arg])
  | imported {arg : Text} {parent : Nat} (hname : arg.trim = name) (hi : s.current = i)
      (hparent : s.parent? s.current = some parent) (hbound : (s.local? parent name).isSome) :
      Edits i name s (.builtin .toChild [arg])
  | deleted {arg : Text} (hname : arg.trim = name) (hi : s.current = i)
      (hbound : (s.local? i name).isSome) : Edits i name s (.builtin .del [arg])

/-- A move leaves what `name` stands for in scope `i` alone. -/
def Move.Spares (i : Nat) (name : Text) (s : Scopes) : Move → Prop
  | .does d _ => ¬ d.Edits i name s
  | .calls _ _ _ _ | .opens _ => True
  | .closes => s.current ≠ i

/-- Each of some moves does so. -/
def Spared (host : Host) (c : Config) (i : Nat) (name : Text) : List Move → Session → Prop
  | [], _ => True
  | m :: moves, s => m.Spares i name s.scopes ∧ Spared host c i name moves (s.after host c m)

section Staying

variable {host : Host} {c : Config} {i : Nat} {name : Text} {s : Session} {b : Binding}

/-- A construct changes no other binding than the one that it edits. -/
theorem Deed.local?_run {d : Deed} (l : Location) (h : ¬ d.Edits i name s.scopes) :
    ((d.run host c l).final s).scopes.local? i name = s.scopes.local? i name := by
  refine final_of (P := fun t => t.scopes.local? i name = s.scopes.local? i name) rfl
    (fun _ _ h => h) (fun _ _ _ _ _ _ h => h) fun scopes hchanges => ?_
  rw [Session.scopes_withScopes]
  cases hchanges with
  | assigned => exact Scopes.local?_define_of_ne fun hi hname => h (.assigned hname.symm hi.symm)
  | defined =>
    refine Scopes.local?_define_of_ne fun hi hname => h ?_
    rw [← hname]
    exact .defined hi.symm
  | exported _ hbound hparent =>
    refine Scopes.local?_define_of_ne fun hi hname => h (.exported hname.symm (hi ▸ hparent) ?_)
    rw [hname, hbound]
    rfl
  | imported _ hparent hbound =>
    refine Scopes.local?_define_of_ne fun hi hname => h (.imported hname.symm hi.symm hparent ?_)
    rw [hname, hbound]
    rfl
  | deleted _ hbound =>
    refine Scopes.local?_erase_of_ne fun hi hname => h (.deleted hname.symm hi.symm ?_)
    rw [hi, hname]
    exact hbound

theorem Move.Spares.local?_after {m : Move} (h : m.Spares i name s.scopes)
    (hi : i ≤ s.scopes.current) : i ≤ (s.after host c m).scopes.current ∧
      (s.after host c m).scopes.local? i name = s.scopes.local? i name := by
  cases m with
  | does d l =>
    have hcurrent : ((d.run host c l).final s).scopes.current = s.scopes.current :=
      (d.frame_run l s).current_eq
    exact ⟨hi.trans_eq hcurrent.symm, Deed.local?_run l h⟩
  | calls name texts named l => exact ⟨hi, rfl⟩
  | opens bindings =>
    have hopened := Session.scopes_opened bindings s
    refine ⟨?_, ?_⟩
    · rw [Session.after, hopened]
      exact Nat.le_succ_of_le hi
    · rw [Session.after, hopened, Scopes.local?_eq, Scopes.scope?_cons (Nat.lt_succ_of_le hi)]
      rfl
  | closes =>
    have hlt : i < s.scopes.current := lt_of_le_of_ne hi (Ne.symm h)
    refine ⟨?_, ?_⟩
    · rw [Session.after, Session.scopes_closed]
      exact Scopes.le_current_pop hlt
    · rw [Session.after, Session.scopes_closed, Scopes.local?_eq, Scopes.scope?_pop hlt]
      rfl

/-- A binding that all moves spare stays where it is. -/
theorem Spared.local?_foldl {moves : List Move} (h : Spared host c i name moves s)
    (hi : i ≤ s.scopes.current) :
    let u := moves.foldl (Session.after host c) s
    i ≤ u.scopes.current ∧ u.scopes.local? i name = s.scopes.local? i name := by
  induction moves generalizing s with
  | nil => exact ⟨hi, rfl⟩
  | cons m moves ih =>
    obtain ⟨hm, hmoves⟩ := h
    obtain ⟨hi', hlocal⟩ : i ≤ (s.after host c m).scopes.current ∧
        (s.after host c m).scopes.local? i name = s.scopes.local? i name := hm.local?_after hi
    obtain ⟨hi'', hrest⟩ := ih hmoves hi'
    exact ⟨hi'', hrest.trans hlocal⟩

end Staying

section Dispatching

variable {host : Host} {c : Config} {steps : Nat} {program : List Node} {j : Journal}
  {name : Text} {names : List Text} {body : Node} {l : Location} {s t u : Session}

theorem runs_define_iff {x : Text} : ((Deed.define name names body).run host c l).Runs s x t ↔
    Nameable name ∧ x = [] ∧
      t = s.withScopes (s.scopes.define s.scopes.current name (.function names body)) := by
  by_cases hname : isReserved name = true
  · have hrefused : ¬ Nameable name := fun h => by simp [h.1] at hname
    simp [Deed.run, checkName, hname, hrefused, runs_bind]
  · by_cases hsigil : name.head? = some Scopes.sigil
    · have hrefused : ¬ Nameable name := fun h => h.2 hsigil
      simp [Deed.run, checkName, checkSigil, hname, hsigil, hrefused, runs_bind]
    · have haccepted : Nameable name := ⟨by simpa using hname, hsigil⟩
      have hrun : ((Deed.define name names body).run host c l).outcome s = (.ok [], s.withScopes
          (s.scopes.define s.scopes.current name (.function names body))) := by
        simp only [Deed.run, checkName, checkSigil, if_neg hname, if_neg hsigil, pure_bind]
        rfl
      simp only [Runs, hrun, haccepted, true_and, Prod.mk.injEq, Except.ok.injEq, eq_comm]

/-- A definition is what its name stands for, while its scope is open and no nearer scope binds the
name. -/
theorem lookup?_of_spared {moves : List Move}
    (hdefined : ((Deed.define name names body).run host c l).Runs s [] t)
    (hspared : Spared host c s.scopes.current name moves t) :
    let u := moves.foldl (Session.after host c) t
    s.scopes.current ≤ u.scopes.current ∧
      u.scopes.local? s.scopes.current name = some (.function names body) ∧
      ((∀ m, s.scopes.current < m → m ≤ u.scopes.current → u.scopes.local? m name = none) →
        u.scopes.lookup? u.scopes.current name = some (.function names body)) := by
  obtain ⟨-, -, rfl⟩ := runs_define_iff.1 hdefined
  have hcurrent : (s.scopes.define s.scopes.current name (.function names body)).current =
      s.scopes.current := by
    rw [Scopes.define_current]
    rfl
  obtain ⟨hle, hstays⟩ := hspared.local?_foldl hcurrent.ge
  rw [Session.scopes_withScopes, Scopes.local?_define_current] at hstays
  exact ⟨hle, hstays, fun hnearest => (Scopes.lookup?_eq_some_iff (Nat.lt_succ_self _)).2
    ⟨_, hle, hstays, hnearest⟩⟩

theorem trailCall_of_lookup? {m : Node → Session → List Move} {texts : List Text}
    {named : List (Text × Text)} (hname : isReserved name = false)
    (hbound : s.scopes.lookup? s.scopes.current name = some (.function names body)) :
    trailCall m name texts named l s = if texts.length = names.length then
      .opens (callBindings names texts named) ::
        m body (s.opened (callBindings names texts named)) ++ [.closes] else [] := by
  unfold trailCall
  rw [Builtin.ofName?_of_isReserved hname, hbound]

theorem outcome_runCall_of_lookup? {v : Node → Rendering Text} {texts : List Text}
    {named : List (Text × Text)} (hname : isReserved name = false)
    (hbound : s.scopes.lookup? s.scopes.current name = some (.function names body)) :
    (runCall host c v name texts named l).outcome s = if texts.length = names.length then
      (inScope (callBindings names texts named) (v body)).outcome s
      else (.error (.failed
        ⟨[], .render (.argumentCount name (.exactly names.length) texts.length), l⟩), s) := by
  unfold runCall
  rw [Builtin.ofName?_of_isReserved hname]
  dsimp only
  rw [outcome_bind, outcome_scopes]
  by_cases hlength : texts.length = names.length <;> simp [hbound, Binding.params, hlength]

/-- A call that sees a function is followed by its body, or stops for the number of arguments. -/
theorem Tells.answers_of_lookup? {α : Type} {moves before rest : List Move} {a : Rendering α}
    {texts : List Text} {named : List (Text × Text)} (h : Tells host c moves a s)
    (hname : isReserved name = false) (hbefore : before.foldl (Session.after host c) s = u)
    (hbound : u.scopes.lookup? u.scopes.current name = some (.function names body))
    (hmoves : moves = before ++ .calls name texts named l :: rest) :
    (texts.length ≠ names.length → ∃ w, a.Stops s (.failed
      ⟨[], .render (.argumentCount name (.exactly names.length) texts.length), l⟩) w) ∧
    (texts.length = names.length → ∃ k more, rest = .opens (callBindings names texts named) ::
      trail host c k body (u.opened (callBindings names texts named)) ++ .closes :: more) := by
  obtain ⟨k, ⟨more, rfl⟩, hfails⟩ := h.answers before name texts named l rest hmoves
  rw [hbefore] at hfails ⊢
  refine ⟨fun hlength => ?_, fun hlength => ⟨k, more, ?_⟩⟩
  · exact hfails _ _ ((outcome_runCall_of_lookup? hname hbound).trans (if_neg hlength))
  · rw [trailCall_of_lookup? hname hbound, if_pos hlength]
    simp

/-- No command of the language takes a name that a definition accepts: calls of it reach the
function, as long as its scope is open, nothing edits the binding and no nearer one is made. -/
theorem dispatches_of_define
    (hdefined : ((Deed.define name names body).run host c l).Runs s [] t) :
    (∀ (d : Delimiters) (tokens : List Token) (r : Reading),
      tokens.foldlM (·.take d) Reading.initial = .ok r → r.ReadsCalls d name) ∧
    ∀ steps program j before between after,
      trail host c (steps + 1) (.mk (.group program) .start) ⟨.initial, j⟩ =
        before ++ .does (.define name names body) l :: (between ++ after) →
      before.foldl (Session.after host c) ⟨.initial, j⟩ = s →
      let i := s.scopes.current
      let u := between.foldl (Session.after host c) t
      Spared host c i name between t →
        i ≤ u.scopes.current ∧ u.scopes.local? i name = some (.function names body) ∧
        ((∀ m, i < m → m ≤ u.scopes.current → u.scopes.local? m name = none) →
          ∀ texts named l',
            let bindings := callBindings names texts named
            let stop : Stop := .failed
              ⟨[], .render (.argumentCount name (.exactly names.length) texts.length), l'⟩
            (∀ k params args s', Readies (visit host c k) params args s' texts named u →
              (visit host c (k + 1) (.mk (.call name params args) l')).outcome s' =
                if texts.length = names.length then
                  (((visit host c k body).outcome (u.opened bindings)).1,
                    ((visit host c k body).final (u.opened bindings)).closed)
                else (.error stop, u)) ∧
            ∀ rest, after = .calls name texts named l' :: rest →
              (texts.length ≠ names.length →
                ∃ w, (visitProgram host c steps program).Stops ⟨.initial, j⟩ stop w) ∧
              (texts.length = names.length → ∃ k more, rest =
                .opens bindings :: trail host c k body (u.opened bindings) ++ .closes :: more)) := by
  have hname : isReserved name = false := (runs_define_iff.1 hdefined).1.1
  refine ⟨fun d tokens r hread => Reading.readsCalls_of_foldlM hname hread, ?_⟩
  intro steps program j before between after htrail hs i u hspared
  obtain ⟨hle, hlocal, hlookup⟩ := lookup?_of_spared hdefined hspared
  refine ⟨hle, hlocal, fun hnearest texts named l' => ?_⟩
  have hbound : u.scopes.lookup? u.scopes.current name = some (.function names body) :=
    hlookup hnearest
  refine ⟨fun k params args s' hready => ?_, ?_⟩
  · rw [hready.outcome_visit, outcome_runCall_of_lookup? hname hbound, outcome_inScope]
  · rintro rest rfl
    have hmoves : (before ++ .does (.define name names body) l :: between).foldl
        (Session.after host c) ⟨.initial, j⟩ = u := by
      have hdone : s.after host c (.does (.define name names body) l) = t :=
        congrArg Prod.snd hdefined
      rw [List.foldl_append, hs, List.foldl_cons, hdone]
    have htold : Tells host c _ (visitProgram host c steps program) ⟨.initial, j⟩ :=
      tells_visit _ _ _
    refine htold.answers_of_lookup? hname hmoves hbound ?_
    rw [htrail, List.append_assoc, List.cons_append]

/-- A name that would be one of the language with one mark less is defined and called. -/
theorem dispatches_of_define_marked : ∃ (host : Host) (program : List Node) (body : Node)
    (between rest more : List Move) (k : Nat) (u : Session),
    trail host .initial 5 (.mk (.group program) .start) ⟨.initial, .empty⟩ =
      .does (.define "if!!".toList [['x']] body) .start ::
        (between ++ .calls "if!!".toList [['1']] [] .start :: rest) ∧
    (∀ (d : Delimiters) (tokens : List Token) (r : Reading),
      tokens.foldlM (·.take d) Reading.initial = .ok r → r.ReadsCalls d "if!!".toList) ∧
    u.scopes.current = 1 ∧
    rest = .opens (callBindings [['x']] [['1']] []) ::
      trail host .initial k body (u.opened (callBindings [['x']] [['1']] [])) ++
        .closes :: more := by
  let host : Host := .offline fun _ => .error ""
  let text (t : Text) : Node := .mk (.raw t) .start
  let body : Node := text ['b']
  let call : Node := .mk (.call "if!!".toList none [text ['1']]) .start
  let outer : Node := .mk (.group [call]) .start
  let program : List Node :=
    [.mk (.define (text "if!!".toList) ⟨[(['x'], none)], .start⟩ body) .start,
    .mk (.define (text ['h']) .empty outer) .start, .mk (.call ['h'] none []) .start]
  let between : List Move :=
    [.does (.define ['h'] [] outer) .start, .calls ['h'] [] [] .start, .opens []]
  let t : Session := ⟨⟨[("if!!".toList, .function [['x']] body)], []⟩, .empty⟩
  have hdefined : ((Deed.define "if!!".toList [['x']] body).run host .initial .start).Runs
      ⟨.initial, .empty⟩ [] t := rfl
  have htrail : trail host .initial 5 (.mk (.group program) .start) ⟨.initial, .empty⟩ =
      [] ++ .does (.define "if!!".toList [['x']] body) .start ::
        (between ++ .calls "if!!".toList [['1']] [] .start ::
          [.opens (callBindings [['x']] [['1']] []), .closes, .closes]) := rfl
  obtain ⟨hreads, hcalls⟩ := dispatches_of_define hdefined
  have hother : ¬ (Deed.define ['h'] [] outer).Edits 0 "if!!".toList t.scopes := nofun
  have hspared : Spared host .initial 0 "if!!".toList between t :=
    ⟨hother, trivial, trivial, trivial⟩
  obtain ⟨-, -, hdispatches⟩ := hcalls _ _ _ _ _ _ htrail rfl hspared
  have hnearest : ∀ m, 0 < m → m ≤ 1 →
      (between.foldl (Session.after host .initial) t).scopes.local? m "if!!".toList = none := by
    intro m hm hm'
    obtain rfl : m = 1 := Nat.le_antisymm hm' hm
    rfl
  obtain ⟨k, more, hrest⟩ := ((hdispatches hnearest _ _ _).2 _ rfl).2 rfl
  exact ⟨host, program, body, between, _, more, k, _, htrail, hreads, rfl, hrest⟩

end Dispatching

end Stencil
