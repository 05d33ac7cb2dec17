import Stencil.Proofs.Blindness
import Stencil.Proofs.Confinement
import Stencil.Proofs.Origins

/-! Programs without their comments. Taking comments away, also from the bodies of functions that
are bound already, changes nothing about a rendering but how many steps it takes. -/
namespace Stencil

open Stencil.Action Stencil.Rendering

namespace Node

def isComment : Node → Bool
  | mk (.comment _) _ => true
  | _ => false

/-- The node without the comments among its statements, at every depth. -/
def withoutComments : Node → Node := sift (!·.isComment)

variable (n : Node)

@[simp] theorem isComment_sift (keep : Node → Bool) : (n.sift keep).isComment = n.isComment := by
  obtain ⟨form, l⟩ := n
  rw [sift_mk]
  cases form <;> rfl

@[simp] theorem isComment_stamp (file : Text) : (n.stamp file).isComment = n.isComment := by
  obtain ⟨form, l⟩ := n
  rw [stamp_mk]
  cases form <;> rfl

theorem sift_true : n.sift (fun _ => true) = n := by
  induction n using induction with
  | step form l ih =>
    have hparts : form.map (sift fun _ => true) = form.map fun q => q := Form.map_congr ih
    rw [sift_mk, hparts, Form.map_id]
    cases form <;> simp [Form.mapBody]

end Node

/-- The program without its comments. -/
def withoutComments (program : List Node) : List Node :=
  (program.map Node.withoutComments).filter (!·.isComment)

namespace Rendering

variable {α β : Type} {f g : Node → Node} {a b : Rendering α} {k k' : α → Rendering β}

/-- Nothing is taken out of the journal, however the run ends. -/
def Growing (a : Rendering α) : Prop :=
  ∀ s, Journal.Grows (fun _ => True) s.journal (a.final s).journal

theorem Growing.pure (x : α) : Growing (pure x : Rendering α) := fun s => .refl s.journal

theorem Growing.throw (e : Stop) : Growing (throw e : Rendering α) := fun s => .refl s.journal

theorem Growing.final_bind (hk : ∀ x, Growing (k x)) (a : Rendering α) (s : Session) :
    Journal.Grows (fun _ => True) (a.final s).journal ((a >>= k).final s).journal := by
  unfold final
  rw [outcome_bind]
  match a.outcome s with
  | (.ok x, t) => exact hk x t
  | (.error e, t) => exact .refl t.journal

theorem Growing.bind (ha : Growing a) (hk : ∀ x, Growing (k x)) : Growing (a >>= k) :=
  fun s => (ha s).trans (Growing.final_bind hk a s)

theorem Growing.inScope (ha : Growing a) (bindings : Scope) : Growing (inScope bindings a) := by
  intro s
  rw [final_inScope]
  exact ha (s.opened bindings)

theorem Growing.runLoop {condition body next : Rendering Text} (hcondition : Growing condition)
    (hbody : Growing body) (hnext : Growing next) (rounds : Nat) (done : List Text) :
    Growing (runLoop condition body next rounds done) := by
  induction rounds generalizing done with
  | zero => exact .throw _
  | succ rounds ih =>
    unfold Stencil.runLoop
    refine hcondition.bind fun x => ?_
    split
    · exact hbody.bind fun text => hnext.bind fun _ => ih (text :: done)
    · exact .pure _

/-- With other bodies of functions, `b` does all that `a` does, and may go on where `a` has no steps
left. -/
structure Follows (f g : Node → Node) (a b : Rendering α) : Prop where
  grows : Growing b
  follows : ∀ s : Session,
    (∃ t, a.Stops (s.mapBodies f) .exhausted t ∧
      Journal.Grows (fun _ => True) t.journal (b.final (s.mapBodies g)).journal) ∨
    ∃ (r : Except Stop α) (t : Session), a.outcome (s.mapBodies f) = (r, t.mapBodies f) ∧
      b.outcome (s.mapBodies g) = (r, t.mapBodies g)

theorem Follows.pure (x : α) : Follows f g (pure x : Rendering α) (pure x) :=
  ⟨.pure x, fun s => .inr ⟨.ok x, s, rfl, rfl⟩⟩

theorem Follows.fail (cause : RenderCause) (l : Location) :
    Follows f g (fail cause l : Rendering α) (fail cause l) :=
  ⟨.throw _, fun s => .inr ⟨_, s, rfl, rfl⟩⟩

theorem Follows.exhausted (hb : Growing b) : Follows f g (throw .exhausted) b :=
  ⟨hb, fun s => .inl ⟨s.mapBodies f, rfl, hb (s.mapBodies g)⟩⟩

theorem Follows.of_blind {a₀ : Rendering α} (ha : Blind f a₀ a) (hb : Blind g a₀ b)
    (hgrows : Growing b) : Follows f g a b :=
  ⟨hgrows, fun s => .inr ⟨_, _, ha s, hb s⟩⟩

theorem Follows.bind (h : Follows f g a b) (hk : ∀ x, Follows f g (k x) (k' x)) :
    Follows f g (a >>= k) (b >>= k') := by
  refine ⟨h.grows.bind fun x => (hk x).grows, fun s => ?_⟩
  obtain ⟨t, hstop, hgrows⟩ | ⟨r, t, ha, hb⟩ := h.follows s
  · have hrest := Growing.final_bind (fun x => (hk x).grows) b (s.mapBodies g)
    exact .inl ⟨t, stops_bind.2 (.inl hstop), hgrows.trans hrest⟩
  · unfold Stops final
    rw [outcome_bind, outcome_bind, ha, hb]
    cases r with
    | error e => exact .inr ⟨.error e, t, rfl, rfl⟩
    | ok x => exact (hk x).follows t

theorem Follows.mapM {f' g' : α → Rendering β} (xs : List α)
    (h : ∀ x, Follows f g (f' x) (g' x)) : Follows f g (xs.mapM f') (xs.mapM g') := by
  induction xs with
  | nil => exact .pure _
  | cons x xs ih =>
    rw [List.mapM_cons, List.mapM_cons]
    exact (h x).bind fun _ => ih.bind fun _ => .pure _

theorem Follows.inScope (names texts : List Text) (named : List (Text × Text))
    (h : Follows f g a b) : Follows f g (inScope (callBindings names texts named) a)
      (inScope (callBindings names texts named) b) := by
  refine ⟨h.grows.inScope _, fun s => ?_⟩
  unfold Stops
  rw [final_inScope, outcome_inScope, outcome_inScope, Session.opened_mapBodies,
    Session.opened_mapBodies]
  obtain ⟨t, hstop, hgrows⟩ | ⟨r, t, ha, hb⟩ := h.follows (s.opened _)
  · have hstop' : a.outcome _ = (.error .exhausted, t) := hstop
    exact .inl ⟨t.closed, by rw [final, hstop'], hgrows⟩
  · refine .inr ⟨r, t.closed, ?_, ?_⟩
    · rw [final, ha, Session.closed_mapBodies]
    · rw [final, hb, Session.closed_mapBodies]

/-- What is done with the scopes must not depend on the bodies in them. -/
theorem Follows.scopes {k k' : Scopes → Rendering β} (hgrows : ∀ s, Growing (k' s))
    (hk : ∀ s : Scopes, Follows f g (k (s.mapBodies f)) (k' (s.mapBodies g))) :
    Follows f g (scopes >>= k) (scopes >>= k') := by
  refine ⟨.bind (fun s => .refl s.journal) hgrows, fun s => ?_⟩
  exact (hk s.scopes).follows s

end Rendering

section Visiting

variable {host : Host} {c : Config} {f g : Node → Node}

theorem growing_visit (steps : Nat) (n : Node) : Growing (visit host c steps n) :=
  fun s => (lasting_gates.visit steps n (.refl s.journal)).mono fun _ _ => trivial

theorem Deed.follows_run (d : Deed) (l : Location) :
    Follows f g ((d.mapBody f).run host c l) ((d.mapBody g).run host c l) :=
  .of_blind d.blind_run d.blind_run fun s =>
    (lasting_gates.done _ l (.refl s.journal)).mono fun _ _ => trivial

section Layers

variable {v v' : Node → Rendering Text} (hv : ∀ n : Node, Follows f g (v (f n)) (v' (g n)))

include hv

theorem follows_runLoop (condition next body : Node) {rounds rounds' : Nat}
    (hrounds : rounds ≤ rounds') (done : List Text) :
    Follows f g (runLoop (v (f condition)) (v (f body)) (v (f next)) rounds done)
      (runLoop (v' (g condition)) (v' (g body)) (v' (g next)) rounds' done) := by
  induction rounds generalizing rounds' done with
  | zero => exact .exhausted (.runLoop (hv _).grows (hv _).grows (hv _).grows rounds' done)
  | succ rounds ih =>
    obtain ⟨rounds', rfl⟩ : ∃ k, rounds' = k + 1 := ⟨rounds' - 1, by omega⟩
    unfold runLoop
    refine (hv condition).bind fun x => ?_
    split
    · exact (hv body).bind fun text => (hv next).bind fun _ => ih (by omega) (text :: done)
    · exact .pure _

theorem follows_visitEntry (entry : Text × Option Node) :
    Follows f g (visitEntry v (entry.1, entry.2.map f))
      (visitEntry v' (entry.1, entry.2.map g)) := by
  obtain ⟨key, value⟩ := entry
  cases value with
  | none => exact .pure _
  | some n => exact (hv n).bind fun _ => .pure _

theorem follows_runCall (hgrows : ∀ n, Growing (v' n)) (name : Text) (texts : List Text)
    (named : List (Text × Text)) (l : Location) :
    Follows f g (runCall host c v name texts named l) (runCall host c v' name texts named l) := by
  unfold runCall
  cases Builtin.ofName? name with
  | some b =>
    dsimp only
    split
    · exact Deed.follows_run (.builtin b texts) l
    · exact .fail _ _
  | none =>
    refine .scopes (fun s => ?_) fun s => ?_
    · split
      · split <;> exact .throw _
      · split
        · exact .throw _
        · split
          · exact .pure _
          · exact (hgrows _).inScope _
    · simp only [Scopes.current_mapBodies, Scopes.lookup?_mapBodies, Option.isSome_map]
      cases s.lookup? s.current name with
      | none =>
        dsimp only [Option.map]
        split <;> exact .fail _ _
      | some b =>
        simp only [Option.map, Binding.params_mapBody]
        split
        · exact .fail _ _
        · cases b with
          | text value => exact .pure _
          | function params body => exact (hv body).inScope _ _ _

end Layers

section Sifting

variable {keep keep' : Node → Bool} {v v' : Node → Rendering Text}

theorem follows_runCases
    (hv : ∀ n : Node, Follows (Node.sift keep) (Node.sift keep') (v (n.sift keep))
      (v' (n.sift keep')))
    (subject : Text) (cases : List Node) :
    Follows (Node.sift keep) (Node.sift keep') (runCases v subject (cases.map (Node.sift keep)))
      (runCases v' subject (cases.map (Node.sift keep'))) := by
  induction cases with
  | nil => exact .pure _
  | cons n cases ih =>
    obtain ⟨form, l⟩ := n
    rw [List.map_cons, List.map_cons, Node.sift_mk, Node.sift_mk]
    cases form with
    | case value body =>
      refine (hv value).bind fun x => ?_
      split
      · exact hv body
      · exact ih
    | _ => exact ih

theorem keep_sift {n : Node} (hkeep : ∀ n, keep n = false → n.isComment)
    (hn : n.isComment = false) (keep' : Node → Bool) : keep (n.sift keep') = true := by
  by_contra hnot
  have hcomment := hkeep (n.sift keep') (by simpa using hnot)
  simp [hn] at hcomment

theorem visit_comment {n : Node} (hn : n.isComment) (steps : Nat) :
    visit host c (steps + 1) n = pure [] := by
  obtain ⟨form, l⟩ := n
  cases form with
  | comment text => rfl
  | _ => cases hn

/-- The texts of some statements. -/
def visitStatements (v : Node → Rendering Text) (ns : List Node) : Rendering Text := do
  return (← ns.mapM v).flatten

theorem visitStatements_cons (n : Node) (ns : List Node) : visitStatements v (n :: ns) = (do
    let text ← v n
    let texts ← visitStatements v ns
    pure (text ++ texts)) := by
  unfold visitStatements
  simp

theorem follows_visitStatements
    (hv : ∀ n : Node, Follows (Node.sift keep) (Node.sift keep') (v (n.sift keep))
      (v' (n.sift keep')))
    (hcomment : ∀ n, n.isComment → v n = throw .exhausted ∨ v n = pure [])
    (hcomment' : ∀ n, n.isComment → v' n = pure [])
    (hkeep : ∀ n, keep n = false → n.isComment) (hkeep' : ∀ n, keep' n = false → n.isComment)
    (ns : List Node) :
    Follows (Node.sift keep) (Node.sift keep')
      (visitStatements v ((ns.map (Node.sift keep)).filter keep))
      (visitStatements v' ((ns.map (Node.sift keep')).filter keep')) := by
  induction ns with
  | nil => exact .pure _
  | cons n ns ih =>
    rw [List.map_cons, List.map_cons]
    cases hn : n.isComment with
    | true =>
      have hright : visitStatements v' ((n.sift keep' :: ns.map (Node.sift keep')).filter keep') =
          visitStatements v' ((ns.map (Node.sift keep')).filter keep') := by
        rw [List.filter_cons]
        split
        · rw [visitStatements_cons, hcomment' _ (by simpa)]
          simp
        · rfl
      rw [hright, List.filter_cons]
      split
      · rw [visitStatements_cons]
        obtain hstop | hempty := hcomment (n.sift keep) (by simpa)
        · rw [hstop]
          exact .exhausted ih.grows
        · rw [hempty]
          simpa using ih
      · exact ih
    | false =>
      rw [List.filter_cons_of_pos (keep_sift hkeep hn keep),
        List.filter_cons_of_pos (keep_sift hkeep' hn keep'), visitStatements_cons,
        visitStatements_cons]
      exact (hv n).bind fun _ => ih.bind fun _ => .pure _

/-- With one step more, a node does what it did, wherever comments are left out. -/
theorem follows_visit (hkeep : ∀ n, keep n = false → n.isComment)
    (hkeep' : ∀ n, keep' n = false → n.isComment) (steps : Nat) (n : Node) :
    Follows (Node.sift keep) (Node.sift keep') (visit host c steps (n.sift keep))
      (visit host c (steps + 1) (n.sift keep')) := by
  induction steps generalizing n with
  | zero => exact .exhausted (growing_visit _ _)
  | succ steps hv =>
    have hgrows : ∀ n, Growing (visit host c (steps + 1) n) := growing_visit (steps + 1)
    obtain ⟨form, l⟩ := n
    rw [Node.sift_mk, Node.sift_mk]
    cases form with
    | group body =>
      have hcomment : ∀ n, n.isComment →
          visit host c steps n = throw .exhausted ∨ visit host c steps n = pure [] := by
        intro n hn
        cases steps with
        | zero => exact .inl rfl
        | succ steps => exact .inr (visit_comment hn steps)
      exact follows_visitStatements hv hcomment (fun n hn => visit_comment hn steps) hkeep hkeep'
        body
    | raw text => exact .pure _
    | comment text => exact .pure _
    | use target hash params => exact .pure _
    | call name params args =>
      simp only [Form.map, Form.mapBody, visit]
      refine .bind (α := List Text) ?_ fun texts =>
        .bind (α := List (Text × Text)) ?_ fun named => follows_runCall hv hgrows _ _ _ _
      · rw [List.mapM_map, List.mapM_map]
        exact .mapM args hv
      · cases params with
        | none => exact .pure _
        | some params =>
          simp only [Option.map, Option.elim, Params.map]
          rw [List.mapM_map, List.mapM_map]
          exact .mapM _ (follows_visitEntry hv)
    | define name params body =>
      have hkeys : ∀ f : Node → Node, (params.map f).keys = params.keys := by
        intro f
        simp [Params.map, Params.keys, Entries.keys]
      simp only [Form.map, Form.mapBody, visit, hkeys, Node.location_sift]
      refine (hv name).bind fun x => ?_
      exact @Deed.follows_run host c _ _ (.define x.trim params.keys body) name.location
    | branch condition yes no =>
      refine (hv condition).bind fun x => ?_
      split
      · exact hv yes
      · cases no with
        | none => exact .pure _
        | some no => exact hv no
    | choice subject cases => exact (hv subject).bind fun x => follows_runCases hv x cases
    | case value body => exact .fail _ _
    | loop first condition next body =>
      exact (hv first).bind fun _ => follows_runLoop hv _ _ _ (Nat.le_succ steps) []
    | url target => exact (hv target).bind fun x => Deed.follows_run (.url x.trim) l
    | file target => exact (hv target).bind fun x => Deed.follows_run (.file x.trim) l
    | exec command => exact (hv command).bind fun x => Deed.follows_run (.command x) l
    | expression source => exact Deed.follows_run (.expression source) l

end Sifting

end Visiting

section Programs

variable {host : Host} {c c' : Config} {j k : Journal} {program : List Node}

/-- With enough steps, the rendering of a program comes to an end, and leaves a journal. -/
def Concludes (host : Host) (c : Config) (program : List Node) (j : Journal)
    (r : Except Failure Text) (k : Journal) : Prop :=
  ∃ steps, (interpret steps host c program).outcome j = (r.mapError .failed, k)

/-- With one step more, `q` does what `p` does, or `p` has no steps left. -/
structure Continues (host : Host) (c : Config) (p q : List Node) (steps : Nat) (j : Journal) :
    Prop where
  grows : Journal.Grows (fun _ => True) ((interpret steps host c p).final j)
    ((interpret (steps + 1) host c q).final j)
  ends : (∃ k, (interpret steps host c p).Stops j .exhausted k) ∨
    (interpret steps host c p).outcome j = (interpret (steps + 1) host c q).outcome j

theorem Rendering.Follows.continues {f g : Node → Node} {p q : List Node} {steps : Nat}
    (h : Follows f g (visitProgram host c steps p) (visitProgram host c (steps + 1) q))
    (j : Journal) : Continues host c p q steps j := by
  have hinitial : ∀ f, (⟨.initial, j⟩ : Session).mapBodies f = ⟨.initial, j⟩ := fun _ => rfl
  have hfollows := h.follows ⟨.initial, j⟩
  rw [hinitial, hinitial] at hfollows
  obtain ⟨t, hstop, hgrows⟩ | ⟨r, t, hp, hq⟩ := hfollows
  · refine ⟨?_, .inl ⟨t.journal, ?_⟩⟩
    · rw [final_interpret, final_interpret, Rendering.final, hstop]
      exact hgrows
    · unfold Action.Stops
      rw [outcome_interpret, hstop]
  · have heq : (interpret steps host c p).outcome j =
        (interpret (steps + 1) host c q).outcome j := by
      rw [outcome_interpret, outcome_interpret, hp, hq]
      obtain (f | _) | text := r <;> rfl
    refine ⟨?_, .inr heq⟩
    unfold Action.final
    rw [heq]
    exact .refl _

theorem Continues.concludes {p q : List Node} {r : Except Failure Text}
    (h : ∀ steps, Continues host c p q steps j) (hp : Concludes host c p j r k) :
    Concludes host c q j r k := by
  obtain ⟨steps, hp⟩ := hp
  obtain ⟨i, hstop⟩ | heq := (h steps).ends
  · have hr := (Prod.mk.inj (hp.symm.trans hstop)).1
    cases r <;> cases hr
  · exact ⟨steps + 1, heq.symm.trans hp⟩

theorem continues_sift (host : Host) (c : Config) (keep keep' : Node → Bool)
    (hkeep : ∀ n, keep n = false → n.isComment) (hkeep' : ∀ n, keep' n = false → n.isComment)
    (program : List Node) (steps : Nat) (j : Journal) :
    Continues host c ((program.map (Node.sift keep)).filter keep)
      ((program.map (Node.sift keep')).filter keep') steps j := by
  refine Follows.continues (f := Node.sift keep) (g := Node.sift keep') ?_ j
  have hvisit := @follows_visit host c keep keep' hkeep hkeep' (steps + 1)
    (.mk (.group program) .start)
  rwa [Node.sift_mk, Node.sift_mk] at hvisit

theorem siftable_of_compile {source : Text} (h : (compile host source c).Runs j (program, c') k) :
    ∀ n ∈ program, n.Everywhere (Node.Siftable (!·.isComment)) := by
  obtain ⟨-, hroot⟩ := runs_compile.1 h
  intro n hn
  obtain ⟨_, _, _, original, _, _, -, hread, m, hm, rfl⟩ := Task.exists_read_of_mem hroot n hn
  obtain ⟨_, _, -, hparse⟩ := runs_read_steps hread
  have hshapes := shapes_siftable (!·.isComment) (fun _ _ => rfl) (fun _ _ => rfl) fun _ _ _ => rfl
  refine Node.everywhere_siftable_sift (by simp) ?_
  exact Node.everywhere_siftable_stamp (by simp) (hshapes.parse hparse m hm)

/-- A compiled program renders alike without its comments, on every host and under every
configuration, also where the rendering does not end. -/
theorem interpret_withoutComments {source : Text}
    (h : (compile host source c).Runs j (program, c') k) :
    (∀ n ∈ withoutComments program, n.Everywhere fun m => m.isComment = false) ∧
    ∀ (host' : Host) (c₀ : Config) (j₀ : Journal),
      (∀ r k₀, Concludes host' c₀ (withoutComments program) j₀ r k₀ ↔
        Concludes host' c₀ program j₀ r k₀) ∧
      ∀ steps,
        Journal.Grows (fun _ => True) ((interpret steps host' c₀ program).final j₀)
          ((interpret (steps + 1) host' c₀ (withoutComments program)).final j₀) ∧
        Journal.Grows (fun _ => True)
          ((interpret steps host' c₀ (withoutComments program)).final j₀)
          ((interpret (steps + 1) host' c₀ program).final j₀) := by
  constructor
  · intro n hn
    obtain ⟨hn, hnot⟩ := List.mem_filter.1 hn
    obtain ⟨m, hm, rfl⟩ := List.mem_map.1 hn
    have hsiftable := siftable_of_compile h m hm
    have hkept : (!m.isComment) = true := by simpa [Node.withoutComments] using hnot
    have hsifted := Node.everywhere_sift (by simp) hsiftable hkept
    exact hsifted.imp fun q hq => by simpa using hq
  · intro host' c₀ j₀
    have hall : (program.map (Node.sift fun _ => true)).filter (fun _ => true) = program := by
      simp [funext Node.sift_true]
    have hout : ∀ steps, Continues host' c₀ program (withoutComments program) steps j₀ := by
      intro steps
      have hsift := continues_sift host' c₀ (fun _ => true) (!·.isComment) (by simp) (by simp)
        program steps j₀
      rwa [hall] at hsift
    have hback : ∀ steps, Continues host' c₀ (withoutComments program) program steps j₀ := by
      intro steps
      have hsift := continues_sift host' c₀ (!·.isComment) (fun _ => true) (by simp) (by simp)
        program steps j₀
      rwa [hall] at hsift
    refine ⟨fun r k₀ => ⟨Continues.concludes hback, Continues.concludes hout⟩, fun steps => ?_⟩
    exact ⟨(hout steps).grows, (hback steps).grows⟩

/-- A function with a comment in its body gives what it gives without. -/
theorem interpret_withoutComments_body : ∃ (host : Host) (source : Text) (program : List Node),
    (compile host source .initial).Runs .empty (program, .initial) .empty ∧
    (∃ n ∈ program, ∃ m : Node, m.Occurs n ∧ m.isComment) ∧
    (∀ n ∈ withoutComments program, n.Everywhere fun m => m.isComment = false) ∧
    Concludes host .initial program .empty (.ok ['a']) .empty ∧
    Concludes host .initial (withoutComments program) .empty (.ok ['a']) .empty := by
  let host : Host := .offline fun _ => .ok []
  let source : Text := "\\f\x7bg\x7d\x7b\\#\x7bx\x7da\x7d\\g".toList
  have htokens : tokenize Config.initial.delimiters source = .ok (Token.place .start
      [⟨.escape, ['\\']⟩, ⟨.commandName, ['f']⟩, ⟨.argStart, ['{']⟩, ⟨.raw, ['g']⟩,
        ⟨.argEnd, ['}']⟩, ⟨.argStart, ['{']⟩, ⟨.escape, ['\\']⟩, ⟨.commandName, ['#']⟩,
        ⟨.argStart, ['{']⟩, ⟨.raw, ['x']⟩, ⟨.argEnd, ['}']⟩, ⟨.raw, ['a']⟩, ⟨.argEnd, ['}']⟩,
        ⟨.escape, ['\\']⟩, ⟨.commandName, ['g']⟩]) := by
    rw [Config.delimiters_initial]
    decide +kernel
  let here (col : Nat) : Location := ⟨⟨0, col⟩, none⟩
  let original : List Node :=
    [.mk (.define (.mk (.group [.mk (.raw ['g']) (here 3)]) (here 2)) ⟨[], here 0⟩
      (.mk (.group [.mk (.comment ['x']) (here 6), .mk (.raw ['a']) (here 11)]) (here 5))) (here 0),
      .mk (.call ['g'] none []) (here 13)]
  have hread : (read source .initial).Runs .empty (original, .initial) .empty :=
    runs_read (by decide +kernel) htokens rfl
  let name : Text := "stdin".toList
  let there (col : Nat) : Location := ⟨⟨0, col⟩, name⟩
  let comment : Node := .mk (.comment ['x']) (there 6)
  let body : Node := .mk (.group [comment, .mk (.raw ['a']) (there 11)]) (there 5)
  let define : Node := .mk (.define (.mk (.group [.mk (.raw ['g']) (there 3)]) (there 2))
    ⟨[], there 0⟩ body) (there 0)
  let program : List Node := [define, .mk (.call ['g'] none []) (there 13)]
  have hstamp : original.map (Node.stamp Config.initial.fileName) = program := rfl
  have hleft : (program.filter (!·.isUse)).map Node.withoutUses = program := rfl
  have hanalyze : (analyze host .initial original).Runs .empty program .empty := by
    unfold analyze resolveImports
    simp only [hstamp, hleft]
    rfl
  have hcompile : (compile host source .initial).Runs .empty (program, .initial) .empty :=
    runs_bind.2 ⟨_, _, hread, runs_bind.2 ⟨_, _, hanalyze, runs_pure.2 ⟨rfl, rfl⟩⟩⟩
  have hconcludes : Concludes host .initial program .empty (.ok ['a']) .empty := ⟨3, rfl⟩
  obtain ⟨hnone, hsame⟩ := interpret_withoutComments hcompile
  obtain ⟨hboth, -⟩ := hsame host .initial .empty
  have hbody : body ∈ define.form.parts :=
    Form.mem_parts.2 (.inl (List.mem_cons_of_mem _ List.mem_cons_self))
  have hcomment : comment.Occurs define :=
    .inside hbody (.inside (Form.mem_parts.2 (.inl List.mem_cons_self)) (.here comment))
  exact ⟨host, source, program, hcompile, ⟨define, List.mem_cons_self, comment, hcomment, rfl⟩,
    hnone, hconcludes, (hboth _ _).2 hconcludes⟩

end Programs

end Stencil
