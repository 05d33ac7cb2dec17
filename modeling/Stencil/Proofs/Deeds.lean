import Stencil.Proofs.Scopes

/-! What one construct can do to a session: which gate it stands behind, what it asks the host, and
how it changes the scopes. -/
namespace Stencil

open Stencil.Rendering

/-- The gate before what a host is asked. -/
def Call.gate : Call → Feature
  | probe _ _ | read _ => .files
  | fetch _ => .net
  | exec _ => .exec
  | evaluate _ => .eval
  | environment _ => .env

namespace Deed

/-- The gate that a construct comes to. -/
def gate? : Deed → Option Feature
  | url _ => some .net
  | file _ => some .files
  | command _ => some .exec
  | expression _ => some .eval
  | builtin .env [_] => some .env
  | builtin _ _ | define _ _ _ => none

/-- How a construct may change the scopes: it edits one name, in the innermost scope or its
parent. -/
inductive Changes : Deed → Scopes → Scopes → Prop where
  | assigned {name value : Text} {s : Scopes} (hname : isReserved name.trim = false)
      (hsigil : name.trim.head? ≠ some Scopes.sigil) :
      Changes (builtin .var [name, value]) s
        (s.define s.current (Scopes.variableName name.trim) (.text value))
  | defined {name : Text} {params : List Text} {body : Node} {s : Scopes}
      (hname : isReserved name = false) (hsigil : name.head? ≠ some Scopes.sigil) :
      Changes (define name params body) s (s.define s.current name (.function params body))
  | exported {name : Text} {b : Binding} {parent : Nat} {s : Scopes}
      (hname : isReserved name.trim = false) (hbound : s.local? s.current name.trim = some b)
      (hparent : s.parent? s.current = some parent) :
      Changes (builtin .toParent [name]) s (s.define parent name.trim b)
  | imported {name : Text} {b : Binding} {parent : Nat} {s : Scopes}
      (hname : isReserved name.trim = false) (hparent : s.parent? s.current = some parent)
      (hbound : s.local? parent name.trim = some b) :
      Changes (builtin .toChild [name]) s (s.define s.current name.trim b)
  | deleted {name : Text} {s : Scopes} (hname : isReserved name.trim = false)
      (hbound : (s.local? s.current name.trim).isSome) :
      Changes (builtin .del [name]) s (s.erase s.current name.trim)

end Deed

/-- What is done behind an open gate only; a closed one is noted. -/
def behindGate (c : Config) (f : Feature) (l : Location) (a : Rendering Text) : Rendering Text := do
  if !(← gate c f l) then return []
  a

section Gates

variable {host : Host} {c : Config} {f : Feature} {l : Location} {a : Rendering Text} {s : Session}
  {P : Session → Prop} {Q : Stop → Session → Prop}

theorem outcome_behindGate : (behindGate c f l a).outcome s =
    if c.enabled f then a.outcome s else (.ok [], s.noted (.codeSkipped f) l) := by
  unfold behindGate gate
  split
  · rfl
  · rfl

theorem ends_behindGate (hs : P s) (noted : ∀ n t, P t → P (t.noted n l))
    (ha : c.enabled f = true → Ends P Q a s) : Ends P Q (behindGate c f l a) s := by
  cases hopen : c.enabled f with
  | false =>
    have hclosed : (behindGate c f l a).Runs s [] (s.noted (.codeSkipped f) l) :=
      outcome_behindGate.trans (if_neg (by simp [hopen]))
    exact .of_runs hclosed (noted _ _ hs)
  | true =>
    have heq : (behindGate c f l a).outcome s = a.outcome s :=
      outcome_behindGate.trans (if_pos hopen)
    exact ⟨fun hr => (ha hopen).runs (heq.symm.trans hr),
      fun hr => (ha hopen).stops (heq.symm.trans hr)⟩

theorem ends_decodeContent {bytes : Bytes} (hs : P s) (noted : ∀ n t, P t → P (t.noted n l)) :
    Ends P Q (decodeContent c bytes l) s := by
  unfold decodeContent
  split
  · exact .of_runs rfl hs
  · exact .of_runs rfl (noted _ _ hs)

end Gates

namespace Deed

variable {host : Host} {c : Config} {f : Feature} {l : Location} {d : Deed} {s : Session}

/-- A construct that comes to a closed gate gives no text, and one warning. -/
theorem outcome_of_closed (hgate : d.gate? = some f) (hclosed : c.enabled f = false) :
    (d.run host c l).outcome s = (.ok [], s.noted (.codeSkipped f) l) := by
  have hbehind : ∃ a, d.run host c l = behindGate c f l a := by
    cases d with
    | builtin b args =>
      match b, args with
      | .env, [name] =>
        obtain rfl := Option.some.inj hgate
        exact ⟨_, rfl⟩
      | .env, [] | .env, _ :: _ :: _ => cases hgate
      | .var, _ | .toParent, _ | .toChild, _ | .del, _ | .halt, _ => cases hgate
    | define name params body => cases hgate
    | _ =>
      obtain rfl := Option.some.inj hgate
      exact ⟨_, rfl⟩
  obtain ⟨a, ha⟩ := hbehind
  rw [ha, outcome_behindGate, hclosed]
  rfl

variable {P : Session → Prop} {Q : Stop → Session → Prop} (hs : P s)
  (noted : ∀ n t, P t → P (t.noted n l))
  (failed : ∀ cause t, P t → Q (.failed ⟨[], .render cause, l⟩) t)

section Failing

include hs failed

theorem ends_checkName {α : Type} {name : Text} {a : Unit → Rendering α}
    (ha : isReserved name = false → Ends P Q (a ()) s) :
    Ends P Q (checkName name l >>= a) s := by
  unfold checkName
  split
  · exact .of_stops rfl (failed _ _ hs)
  · next hname => exact ha (by simpa using hname)

theorem ends_checkSigil {α : Type} {name : Text} {a : Unit → Rendering α}
    (ha : name.head? ≠ some Scopes.sigil → Ends P Q (a ()) s) :
    Ends P Q (checkSigil name l >>= a) s := by
  unfold checkSigil
  split
  · exact .of_stops rfl (failed _ _ hs)
  · next hname => exact ha hname

end Failing

include hs noted

theorem ends_noteMissing (name : Text) : Ends P Q (noteMissing name l) s := by
  refine Ends.bind (.of_runs rfl hs) fun scopes t _ ht => ?_
  dsimp only
  split
  · exact .of_runs rfl (noted _ _ ht)
  · exact .of_runs rfl (noted _ _ ht)

include failed

theorem ends_of_gate (hgate : d.gate? = some f)
    (asked : c.enabled f = true → ∀ call t, call.gate = f → P t → P (t.asked call)) :
    Ends P Q (d.run host c l) s := by
  have asks : ∀ {α : Type} {a : Unit → Rendering α} {call : Call} {t : Session},
      c.enabled f = true → call.gate = f → P t →
        (P (t.asked call) → Ends P Q (a ()) (t.asked call)) →
        Ends P Q (Rendering.call call >>= a) t := by
    intro α a call t hopen hcall ht ha
    exact Ends.bind (.of_runs rfl (asked hopen call t hcall ht)) fun _ _ hr ht => by
      obtain ⟨-, rfl⟩ := Prod.mk.inj hr
      exact ha ht
  have fails : ∀ {cause t}, P t → Ends P Q (fail cause l : Rendering Text) t :=
    fun ht => .of_stops rfl (failed _ _ ht)
  cases d with
  | url address =>
    obtain rfl := Option.some.inj hgate
    refine ends_behindGate hs noted fun hopen => Ends.bind (.of_runs rfl hs) fun now t _ ht => ?_
    refine asks hopen rfl ht fun ht => ?_
    split
    · exact ends_decodeContent ht noted
    · exact fails ht
  | file target =>
    obtain rfl := Option.some.inj hgate
    refine ends_behindGate hs noted fun hopen => Ends.bind (.of_runs rfl hs) fun now t _ ht => ?_
    refine asks hopen rfl ht fun ht => ?_
    dsimp only
    split
    · exact .of_stops rfl (failed _ _ ht)
    · refine Ends.bind (.of_runs rfl ht) fun now t _ ht => asks hopen rfl ht fun ht => ?_
      split
      · exact ends_decodeContent ht noted
      · exact fails ht
  | command text =>
    obtain rfl := Option.some.inj hgate
    refine ends_behindGate hs noted fun hopen => Ends.bind (.of_runs rfl hs) fun now t _ ht => ?_
    refine asks hopen rfl ht fun ht => ?_
    split
    · exact .of_runs rfl ht
    · exact fails ht
  | expression source =>
    obtain rfl := Option.some.inj hgate
    refine ends_behindGate hs noted fun hopen => Ends.bind (.of_runs rfl hs) fun scopes t _ ht => ?_
    refine asks hopen rfl ht fun ht => ?_
    split
    · exact .of_runs rfl ht
    · exact fails ht
  | builtin b args =>
    cases b with
    | env =>
      rcases args with _ | ⟨name, _ | ⟨_, _⟩⟩
      · cases hgate
      · obtain rfl := Option.some.inj hgate
        refine ends_behindGate hs noted fun hopen => asks hopen rfl hs fun ht => ?_
        split
        · exact .of_runs rfl ht
        · exact .of_runs rfl (noted _ _ ht)
      · cases hgate
    | _ => cases hgate
  | define name params body => cases hgate

/-- A construct notes, asks behind its open gate, or changes the scopes in its one way; or it fails
where it stands. -/
theorem ends_run
    (asked : ∀ f, d.gate? = some f → c.enabled f = true → ∀ call t, call.gate = f → P t →
      P (t.asked call))
    (changed : ∀ scopes, d.Changes s.scopes scopes → P (s.withScopes scopes)) :
    Ends P Q (d.run host c l) s := by
  have fails : ∀ cause, Ends P Q (fail cause l : Rendering Text) s :=
    fun cause => .of_stops rfl (failed cause s hs)
  cases hgate : d.gate? with
  | some f => exact ends_of_gate hs noted failed hgate (asked f hgate)
  | none =>
    cases d with
    | define name params body =>
      refine ends_checkName hs failed fun hname => ends_checkSigil hs failed fun hsigil => ?_
      exact .of_runs rfl (changed _ (.defined hname hsigil))
    | builtin b args =>
      match b, args with
      | .var, [name, value] =>
        refine ends_checkName hs failed fun hname => ends_checkSigil hs failed fun hsigil => ?_
        exact .of_runs rfl (changed _ (.assigned hname hsigil))
      | .toParent, [name] =>
        refine ends_checkName hs failed fun hname => Ends.bind (.of_runs rfl hs) ?_
        intro scopes t hscopes _
        obtain ⟨rfl, rfl⟩ := runs_scopes.1 hscopes
        dsimp only
        split
        · exact (ends_noteMissing hs noted _).bind fun _ _ _ ht => .of_runs rfl ht
        · next b parent hbound hparent =>
          exact .of_runs rfl (changed _ (.exported hname hbound hparent))
        · exact .of_runs rfl (noted _ _ hs)
      | .toChild, [name] =>
        refine ends_checkName hs failed fun hname => Ends.bind (.of_runs rfl hs) ?_
        intro scopes t hscopes _
        obtain ⟨rfl, rfl⟩ := runs_scopes.1 hscopes
        dsimp only
        split
        · exact .of_runs rfl (noted _ _ hs)
        · next parent hparent =>
          split
          · next b hbound => exact .of_runs rfl (changed _ (.imported hname hparent hbound))
          · exact .of_runs rfl (noted _ _ hs)
      | .del, [name] =>
        refine ends_checkName hs failed fun hname => Ends.bind (.of_runs rfl hs) ?_
        intro scopes t hscopes _
        obtain ⟨rfl, rfl⟩ := runs_scopes.1 hscopes
        dsimp only
        split
        · next hbound => exact .of_runs rfl (changed _ (.deleted hname hbound))
        · exact (ends_noteMissing hs noted _).bind fun _ _ _ ht => .of_runs rfl ht
      | .env, [name] => cases hgate
      | .halt, [] | .halt, [_] | .halt, _ :: _ :: _ => exact fails _
      | .var, [] | .var, [_] | .var, _ :: _ :: _ :: _ => exact fails _
      | .toParent, [] | .toParent, _ :: _ :: _ | .toChild, [] | .toChild, _ :: _ :: _ =>
        exact fails _
      | .del, [] | .del, _ :: _ :: _ | .env, [] | .env, _ :: _ :: _ => exact fails _
    | _ => cases hgate

omit failed in
theorem final_of
    (asked : ∀ f, d.gate? = some f → c.enabled f = true → ∀ call t, call.gate = f → P t →
      P (t.asked call))
    (changed : ∀ scopes, d.Changes s.scopes scopes → P (s.withScopes scopes)) :
    P ((d.run host c l).final s) :=
  ends_iff_final.1 (ends_run hs noted (fun _ _ h => h) asked changed)

omit hs noted failed

theorem stops_run {e : Stop} {t : Session} (h : (d.run host c l).Stops s e t) :
    ∃ cause, e = .failed ⟨[], .render cause, l⟩ :=
  Ends.stops (P := fun _ => True) (Q := fun e _ => ∃ cause, e = .failed ⟨[], .render cause, l⟩)
    (ends_run trivial (fun _ _ _ => trivial) (fun cause _ _ => ⟨cause, rfl⟩)
      (fun _ _ _ _ _ _ _ => trivial) fun _ _ => trivial) h

/-- What a construct binds anew, and not as a copy. -/
inductive Binds : Deed → Text × Binding → Prop where
  | assigned {name value : Text} (hname : isReserved name.trim = false)
      (hsigil : name.trim.head? ≠ some Scopes.sigil) :
      Binds (builtin .var [name, value]) (Scopes.variableName name.trim, .text value)
  | defined {name : Text} {params : List Text} {body : Node} (hname : isReserved name = false)
      (hsigil : name.head? ≠ some Scopes.sigil) :
      Binds (define name params body) (name, .function params body)

/-- What holds of all bindings is kept where it holds of those made anew. -/
theorem every_run {Q : Text × Binding → Prop} (hs : s.scopes.Every Q)
    (hbinds : ∀ p, d.Binds p → Q p) : ((d.run host c l).final s).scopes.Every Q := by
  refine final_of (P := fun t => t.scopes.Every Q) hs (fun _ _ h => h) (fun _ _ _ _ _ _ h => h) ?_
  intro scopes hchanges
  rw [Session.scopes_withScopes]
  cases hchanges with
  | assigned hname hsigil => exact hs.define (hbinds _ (.assigned hname hsigil))
  | defined hname hsigil => exact hs.define (hbinds _ (.defined hname hsigil))
  | exported _ hbound _ => exact hs.define (hs.of_local? hbound)
  | imported _ _ hbound => exact hs.define (hs.of_local? hbound)
  | deleted => exact hs.erase

end Deed

end Stencil
