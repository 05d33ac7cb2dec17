import Stencil.Proofs.Lexing
import Stencil.Proofs.Visits

/-! The trail of a rendering: what it does, move by move, in the order of time. Each move says what
becomes of the session; a call among them is followed by what its name stands for. -/
namespace Stencil

open Stencil.Rendering

/-- One move of a rendering. -/
inductive Move where
  /-- A construct does what it does itself. -/
  | does (d : Deed) (l : Location)
  /-- A call has its arguments and parameters as texts, and nothing has come of it yet. -/
  | calls (name : Text) (texts : List Text) (named : List (Text × Text)) (l : Location)
  | opens (bindings : Scope)
  | closes

/-- What a move makes of a session. -/
def Session.after (host : Host) (c : Config) (s : Session) : Move → Session
  | .does d l => (d.run host c l).final s
  | .calls _ _ _ _ => s
  | .opens bindings => s.opened bindings
  | .closes => s.closed

/-- The moves of an action from a session on, and those that come next. -/
def Rendering.follow {α : Type} (a : Rendering α) (moves : List Move) (s : Session)
    (next : α → Session → List Move) : List Move :=
  moves ++ match a.outcome s with
    | (.ok x, t) => next x t
    | (.error _, _) => []

section Layers

variable (v : Node → Rendering Text) (m : Node → Session → List Move)

/-- The trail of one node after the other. -/
def trailAll : List Node → Session → List Move
  | [], _ => []
  | n :: ns, s => (v n).follow (m n s) s fun _ => trailAll ns

/-- The trail of the values of parameters; flags have none. -/
def trailEntries : List (Text × Option Node) → Session → List Move
  | [], _ => []
  | (_, none) :: entries, s => trailEntries entries s
  | (_, some n) :: entries, s => (v n).follow (m n s) s fun _ => trailEntries entries

/-- What comes of a call: a built-in command, or the body of a function. -/
def trailCall (name : Text) (texts : List Text) (named : List (Text × Text)) (l : Location)
    (s : Session) : List Move :=
  match Builtin.ofName? name with
  | some b => if named.isEmpty then [.does (.builtin b texts) l] else []
  | none =>
    match s.scopes.lookup? s.scopes.current name with
    | some (.function names body) =>
      let bindings := callBindings names texts named
      if texts.length = names.length then .opens bindings :: m body (s.opened bindings) ++ [.closes]
      else []
    | _ => []

def trailCases (subject : Text) : List Node → Session → List Move
  | [], _ => []
  | .mk (.case value body) _ :: cases, s => (v value).follow (m value s) s fun x t =>
    if x = subject then m body t else trailCases subject cases t
  | _ :: cases, s => trailCases subject cases s

def trailLoop (condition next body : Node) : Nat → Session → List Move
  | 0, _ => []
  | rounds + 1, s => (v condition).follow (m condition s) s fun x t =>
    if holds x then
      (v body).follow (m body t) t fun _ t₁ =>
        (v next).follow (m next t₁) t₁ fun _ => trailLoop condition next body rounds
    else []

end Layers

/-- The trail of the visit of a node. -/
def trail (host : Host) (c : Config) : Nat → Node → Session → List Move
  | 0, _, _ => []
  | steps + 1, .mk form l, s =>
    let visit := visit host c steps
    let trail := trail host c steps
    match form with
    | .group body => trailAll visit trail body s
    | .raw _ | .comment _ | .use _ _ _ | .case _ _ => []
    | .call name params args =>
      let entries := params.elim [] Params.entries
      (args.mapM visit).follow (trailAll visit trail args s) s fun texts t =>
        (entries.mapM (visitEntry visit)).follow (trailEntries visit trail entries t) t
          fun named u => .calls name texts named l :: trailCall trail name texts named l u
    | .define name params body => (visit name).follow (trail name s) s fun x _ =>
      [.does (.define x.trim params.keys body) name.location]
    | .branch condition yes no => (visit condition).follow (trail condition s) s fun x t =>
      if holds x then trail yes t else no.elim [] (trail · t)
    | .loop first condition next body => (visit first).follow (trail first s) s fun _ =>
      trailLoop visit trail condition next body steps
    | .choice subject cases => (visit subject).follow (trail subject s) s fun x =>
      trailCases visit trail x cases
    | .url target => (visit target).follow (trail target s) s fun x _ => [.does (.url x.trim) l]
    | .file target => (visit target).follow (trail target s) s fun x _ => [.does (.file x.trim) l]
    | .exec target => (visit target).follow (trail target s) s fun x _ => [.does (.command x) l]
    | .expression source => [.does (.expression source) l]

/-- Moves tell what an action does from a session on, and what comes of each call among them. -/
structure Tells (host : Host) (c : Config) {α : Type} (moves : List Move) (a : Rendering α)
    (s : Session) : Prop where
  final : a.final s = moves.foldl (Session.after host c) s
  answers : ∀ before name texts named l after,
    moves = before ++ .calls name texts named l :: after →
      let u := before.foldl (Session.after host c) s
      ∃ k, (∃ rest, after = trailCall (trail host c k) name texts named l u ++ rest) ∧
        ∀ e w, (runCall host c (visit host c k) name texts named l).Stops u e w →
          ∃ w', a.Stops s e w'

section Telling

variable {host : Host} {c : Config} {α β : Type} {moves : List Move} {a : Rendering α}
  {s t : Session}

theorem Tells.of_final (hcalls : ∀ name texts named l, .calls name texts named l ∉ moves)
    (h : a.final s = moves.foldl (Session.after host c) s) : Tells host c moves a s where
  final := h
  answers := by
    rintro before name texts named l after rfl
    exact absurd (List.mem_append_right _ List.mem_cons_self) (hcalls name texts named l)

theorem Tells.of_nil (h : a.final s = s) : Tells host c [] a s := .of_final nofun h

theorem Tells.of_outcome_eq {b : Rendering α} (h : Tells host c moves b s)
    (heq : a.outcome s = b.outcome s) : Tells host c moves a s := by
  obtain ⟨hfinal, hanswers⟩ := h
  refine ⟨?_, fun before name texts named l after hmoves => ?_⟩
  · rw [← hfinal, Rendering.final, Rendering.final, heq]
  · simpa only [Stops, heq] using hanswers before name texts named l after hmoves

theorem tells_deed (d : Deed) (l : Location) (s : Session) :
    Tells host c [.does d l] (d.run host c l) s := .of_final (by simp) rfl

theorem Rendering.follow_of_runs {x : α} {next : α → Session → List Move} (h : a.Runs s x t) :
    a.follow moves s next = moves ++ next x t := by
  unfold follow
  rw [show a.outcome s = _ from h]

/-- What an action does, and then what the next one does. -/
theorem Tells.follow {f : α → Rendering β} {next : α → Session → List Move}
    (h : Tells host c moves a s) (hf : ∀ x t, a.Runs s x t → Tells host c (next x t) (f x) t) :
    Tells host c (a.follow moves s next) (a >>= f) s := by
  cases ha : a.outcome s with
  | mk result t =>
    cases result with
    | error e =>
      have hstops : ∀ {e w}, a.Stops s e w → (a >>= f).Stops s e w := fun h => stops_bind.2 (.inl h)
      have hmoves : a.follow moves s next = moves := by
        unfold Rendering.follow
        rw [ha, List.append_nil]
      rw [hmoves]
      refine ⟨?_, fun before name texts named l after heq => ?_⟩
      · rw [← h.final, Rendering.final, Rendering.final, show outcome _ s = _ from hstops ha, ha]
      · obtain ⟨k, hafter, hfails⟩ := h.answers before name texts named l after heq
        exact ⟨k, hafter, fun e w hw => (hfails e w hw).imp fun _ => hstops⟩
    | ok x =>
      have hnext := hf x t ha
      have ht : moves.foldl (Session.after host c) s = t := by
        rw [← h.final, Rendering.final, ha]
      rw [follow_of_runs ha]
      refine ⟨?_, fun before name texts named l after heq => ?_⟩
      · rw [List.foldl_append, ht, ← hnext.final]
        rw [Rendering.final, outcome_bind, ha, Rendering.final]
      · obtain ⟨more, rfl, hmore⟩ | ⟨rest, hmoves, rfl⟩ := append_eq_append_cons heq
        · obtain ⟨k, hafter, hfails⟩ := hnext.answers more name texts named l after hmore
          rw [List.foldl_append, ht]
          refine ⟨k, hafter, fun e w hw => ?_⟩
          exact (hfails e w hw).imp fun _ he => stops_bind.2 (.inr ⟨x, t, ha, he⟩)
        · obtain ⟨k, ⟨more, rfl⟩, hfails⟩ := h.answers before name texts named l rest hmoves
          refine ⟨k, ⟨_, List.append_assoc ..⟩, fun e w hw => ?_⟩
          obtain ⟨w', he⟩ := hfails e w hw
          exact absurd (ha.symm.trans he) (by simp)

theorem Rendering.follow_nil : a.follow moves s (fun _ _ => []) = moves := by
  unfold Rendering.follow
  split <;> exact List.append_nil moves

theorem Tells.bind_pure (h : Tells host c moves a s) (f : α → β) :
    Tells host c moves (a >>= fun x => pure (f x)) s := by
  have hfollow : Tells host c (a.follow moves s fun _ _ => []) (a >>= fun x => pure (f x)) s :=
    h.follow fun x t _ => .of_nil rfl
  rwa [Rendering.follow_nil] at hfollow

theorem Tells.calls {k : Nat} {name : Text} {texts : List Text} {named : List (Text × Text)}
    {l : Location}
    (h : Tells host c (trailCall (trail host c k) name texts named l s)
      (runCall host c (visit host c k) name texts named l) s) :
    Tells host c (.calls name texts named l :: trailCall (trail host c k) name texts named l s)
      (runCall host c (visit host c k) name texts named l) s where
  final := h.final
  answers := by
    intro before name' texts' named' l' after heq
    cases before with
    | nil =>
      obtain ⟨⟨⟩, rfl⟩ := List.cons.inj heq
      exact ⟨k, ⟨[], (List.append_nil _).symm⟩, fun e w hw => ⟨w, hw⟩⟩
    | cons first before =>
      obtain ⟨rfl, hrest⟩ := List.cons.inj heq
      exact h.answers before name' texts' named' l' after hrest

theorem Tells.inScope {bindings : Scope} (h : Tells host c moves a (s.opened bindings)) :
    Tells host c (.opens bindings :: moves ++ [.closes]) (inScope bindings a) s where
  final := by
    rw [final_inScope, h.final, List.cons_append, List.foldl_cons, List.foldl_append]
    rfl
  answers := by
    intro before name texts named l after heq
    cases before with
    | nil => cases (List.cons.inj heq).1
    | cons first before =>
      obtain ⟨rfl, hrest⟩ := List.cons.inj heq
      obtain ⟨more, -, hmore⟩ | ⟨rest, hmoves, rfl⟩ := append_eq_append_cons hrest
      · have hmem : Move.calls name texts named l ∈ [Move.closes] := by simp [hmore]
        cases List.mem_singleton.1 hmem
      · obtain ⟨k, ⟨more, rfl⟩, hfails⟩ := h.answers before name texts named l rest hmoves
        refine ⟨k, ⟨_, List.append_assoc ..⟩, fun e w hw => ?_⟩
        obtain ⟨w', he⟩ := hfails e w hw
        refine ⟨(a.final (s.opened bindings)).closed, ?_⟩
        rw [Stops, outcome_inScope, show a.outcome _ = _ from he]

section Layers

variable {v : Node → Rendering Text} {m : Node → Session → List Move}
  (hm : ∀ n s, Tells host c (m n s) (v n) s)

include hm

theorem tells_all (ns : List Node) (s : Session) :
    Tells host c (trailAll v m ns s) (ns.mapM v) s := by
  induction ns generalizing s with
  | nil => exact .of_nil rfl
  | cons n ns ih =>
    rw [List.mapM_cons]
    exact (hm n s).follow fun x t _ => (ih t).bind_pure _

theorem tells_entries (entries : List (Text × Option Node)) (s : Session) :
    Tells host c (trailEntries v m entries s) (entries.mapM (visitEntry v)) s := by
  induction entries generalizing s with
  | nil => exact .of_nil rfl
  | cons entry entries ih =>
    rw [List.mapM_cons]
    obtain ⟨key, _ | n⟩ := entry
    · exact (ih s).bind_pure _
    · rw [visitEntry, bind_assoc]
      exact (hm n s).follow fun x t _ => (ih t).bind_pure _

theorem tells_cases (subject : Text) (cases : List Node) (s : Session) :
    Tells host c (trailCases v m subject cases s) (runCases v subject cases) s := by
  induction cases generalizing s with
  | nil => exact .of_nil rfl
  | cons n cases ih =>
    obtain ⟨form, l⟩ := n
    cases form with
    | case value body =>
      refine (hm value s).follow fun x t _ => ?_
      by_cases hx : x = subject
      · simpa only [if_pos hx] using hm body t
      · simpa only [if_neg hx] using ih t
    | _ => exact ih s

theorem tells_loop (condition next body : Node) (rounds : Nat) (done : List Text) (s : Session) :
    Tells host c (trailLoop v m condition next body rounds s)
      (runLoop (v condition) (v body) (v next) rounds done) s := by
  induction rounds generalizing done s with
  | zero => exact .of_nil rfl
  | succ rounds ih =>
    refine (hm condition s).follow fun x t _ => ?_
    by_cases hx : holds x = true
    · simp only [if_pos hx]
      refine (hm body t).follow fun y t₁ _ => ?_
      exact (hm next t₁).follow fun z t₂ _ => ih (y :: done) t₂
    · simp only [if_neg hx]
      exact .of_nil rfl

theorem tells_call (name : Text) (texts : List Text) (named : List (Text × Text)) (l : Location)
    (s : Session) :
    Tells host c (trailCall m name texts named l s) (runCall host c v name texts named l) s := by
  unfold trailCall runCall
  cases Builtin.ofName? name with
  | some b =>
    dsimp only
    split
    · exact tells_deed (.builtin b texts) l s
    · exact .of_nil rfl
  | none =>
    have hscopes : ∀ f : Scopes → Rendering Text,
        (scopes >>= f).outcome s = (f s.scopes).outcome s := fun f => by
      rw [outcome_bind, outcome_scopes]
    refine Tells.of_outcome_eq ?_ (hscopes _)
    cases s.scopes.lookup? s.scopes.current name with
    | none =>
      dsimp only
      split <;> exact .of_nil rfl
    | some b =>
      cases b with
      | text value =>
        dsimp only
        split <;> exact .of_nil rfl
      | function names body =>
        by_cases hlength : texts.length = names.length
        · simp only [Binding.params, hlength, ne_eq, not_true_eq_false, if_false, if_true]
          exact (hm body _).inScope
        · simp only [Binding.params, hlength, ne_eq, not_false_eq_true, if_false, if_true]
          exact .of_nil rfl

end Layers

/-- The trail of a node tells what the visit of it does. -/
theorem tells_visit (steps : Nat) (n : Node) (s : Session) :
    Tells host c (trail host c steps n s) (visit host c steps n) s := by
  induction steps generalizing n s with
  | zero => exact .of_nil rfl
  | succ steps ih =>
    obtain ⟨form, l⟩ := n
    have deed : ∀ {n : Node} {s : Session} {d : Text → Deed} {l' : Location},
        Tells host c ((visit host c steps n).follow (trail host c steps n s) s
          fun x _ => [.does (d x) l']) (visit host c steps n >>= fun x => (d x).run host c l') s :=
      (ih _ _).follow fun x t _ => tells_deed _ _ t
    cases form with
    | group body => exact (tells_all ih body s).bind_pure _
    | call name params args =>
      refine (tells_all ih args s).follow fun texts t _ => ?_
      refine (tells_entries ih _ t).follow fun named u _ => ?_
      exact (tells_call ih name texts named l u).calls
    | define name params body => exact deed
    | branch condition yes no =>
      refine (ih condition s).follow fun x t _ => ?_
      by_cases hx : holds x = true
      · simpa only [if_pos hx] using ih yes t
      · simp only [if_neg hx]
        cases no with
        | none => exact .of_nil rfl
        | some no => exact ih no t
    | loop first condition next body =>
      exact (ih first s).follow fun x t _ => tells_loop ih condition next body steps [] t
    | choice subject cases => exact (ih subject s).follow fun x t _ => tells_cases ih x cases t
    | url target => exact deed
    | file target => exact deed
    | exec command => exact deed
    | expression source => exact tells_deed (.expression source) l s
    | _ => exact .of_nil rfl

end Telling

end Stencil
