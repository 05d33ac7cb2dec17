import Stencil.Proofs.Action
import Stencil.Proofs.Node
import Stencil.Proofs.Rendering
import Stencil.Template

/-! The way of a rendering through a program: which node is visited next, which body a call runs,
and what a construct does itself once its parts are texts. What each of these keeps of a session is
kept by every visit, and holds at every moment of it. -/
namespace Stencil

open Stencil.Rendering

/-- What a construct does itself, once its parts are texts. -/
inductive Deed where
  | url (address : Text)
  | file (target : Text)
  | command (text : Text)
  | expression (source : Text)
  | builtin (b : Builtin) (args : List Text)
  | define (name : Text) (params : List Text) (body : Node)

/-- Does it, for a construct at a location. -/
def Deed.run (host : Host) (c : Config) (l : Location) : Deed → Rendering Text
  | url address => readUrl host c address l
  | file target => readFile host c target l
  | command text => runCommand host c text l
  | expression source => evaluate host c source l
  | builtin b args => runBuiltin host c b args l
  | define name params body => do
    checkName name l
    checkSigil name l
    Rendering.define name (.function params body)
    pure []

section Layers

variable (v : Node → Rendering Text)

/-- Some rounds of a loop lead from a session to another one. -/
inductive Rounds (condition next body : Node) (s : Session) : Session → Prop where
  | none : Rounds condition next body s s
  | one {t t₁ t₂ t₃ : Session} {x y z : Text} (before : Rounds condition next body s t)
      (hcondition : (v condition).Runs t x t₁) (hx : holds x = true)
      (hbody : (v body).Runs t₁ y t₂) (hnext : (v next).Runs t₂ z t₃) :
      Rounds condition next body s t₃

/-- None of some cases has the value that is looked for. -/
inductive Misses (subject : Text) (s : Session) : List Node → Session → Prop where
  | nil : Misses subject s [] s
  | other {cases : List Node} {n : Node} {t : Session} (before : Misses subject s cases t)
      (hn : ∀ value body, n.form ≠ .case value body) : Misses subject s (cases ++ [n]) t
  | value {cases : List Node} {value body : Node} {l : Location} {t t₁ : Session} {x : Text}
      (before : Misses subject s cases t) (hvalue : (v value).Runs t x t₁) (hx : x ≠ subject) :
      Misses subject s (cases ++ [.mk (.case value body) l]) t₁

/-- A call has its arguments and parameters as texts. -/
def Readies (params : Option (Params Node)) (args : List Node) (s : Session) (texts : List Text)
    (named : List (Text × Text)) (t : Session) : Prop :=
  ∃ i, (args.mapM v).Runs s texts i ∧
    ((params.elim [] Params.entries).mapM (visitEntry v)).Runs i named t

/-- While a layer is visited from `s`, the visit of a part begins in `t`. -/
inductive Begins (s : Session) : Form Node → Node → Session → Prop where
  | statement {before after : List Node} {n : Node} {texts : List Text} {t : Session}
      (hbefore : (before.mapM v).Runs s texts t) : Begins s (.group (before ++ n :: after)) n t
  | argument {name : Text} {params : Option (Params Node)} {before after : List Node} {n : Node}
      {texts : List Text} {t : Session} (hbefore : (before.mapM v).Runs s texts t) :
      Begins s (.call name params (before ++ n :: after)) n t
  | entry {name key : Text} {before after : List (Text × Option Node)} {l : Location}
      {args : List Node} {n : Node} {texts : List Text} {named : List (Text × Text)}
      {i t : Session} (hargs : (args.mapM v).Runs s texts i)
      (hbefore : (before.mapM (visitEntry v)).Runs i named t) :
      Begins s (.call name (some ⟨before ++ (key, some n) :: after, l⟩) args) n t
  | name {n body : Node} {params : Params Node} : Begins s (.define n params body) n s
  | condition {n yes : Node} {no : Option Node} : Begins s (.branch n yes no) n s
  | yes {condition n : Node} {no : Option Node} {x : Text} {t : Session}
      (hcondition : (v condition).Runs s x t) (hx : holds x = true) :
      Begins s (.branch condition n no) n t
  | no {condition yes n : Node} {x : Text} {t : Session} (hcondition : (v condition).Runs s x t)
      (hx : holds x = false) : Begins s (.branch condition yes (some n)) n t
  | first {n condition next body : Node} : Begins s (.loop n condition next body) n s
  | again {first n next body : Node} {x : Text} {i t : Session} (hfirst : (v first).Runs s x i)
      (hrounds : Rounds v n next body i t) : Begins s (.loop first n next body) n t
  | body {first condition next n : Node} {x y : Text} {i t t₁ : Session}
      (hfirst : (v first).Runs s x i) (hrounds : Rounds v condition next n i t)
      (hcondition : (v condition).Runs t y t₁) (hy : holds y = true) :
      Begins s (.loop first condition next n) n t₁
  | next {first condition n body : Node} {x y z : Text} {i t t₁ t₂ : Session}
      (hfirst : (v first).Runs s x i) (hrounds : Rounds v condition n body i t)
      (hcondition : (v condition).Runs t y t₁) (hy : holds y = true)
      (hbody : (v body).Runs t₁ z t₂) : Begins s (.loop first condition n body) n t₂
  | subject {n : Node} {cases : List Node} : Begins s (.choice n cases) n s
  | value {subject n body : Node} {before after : List Node} {l : Location} {x : Text}
      {i t : Session} (hsubject : (v subject).Runs s x i) (hbefore : Misses v x i before t) :
      Begins s (.choice subject (before ++ .mk (.case n body) l :: after)) n t
  | found {subject value n : Node} {before after : List Node} {l : Location} {x : Text}
      {i t t₁ : Session} (hsubject : (v subject).Runs s x i) (hbefore : Misses v x i before t)
      (hvalue : (v value).Runs t x t₁) :
      Begins s (.choice subject (before ++ .mk (.case value n) l :: after)) n t₁
  | url {n : Node} : Begins s (.url n) n s
  | file {n : Node} : Begins s (.file n) n s
  | exec {n : Node} : Begins s (.exec n) n s

/-- While a layer is visited from `s`, it calls a function in `t`. -/
inductive Calls (s : Session) : Form Node → Node → Scope → Session → Prop where
  | intro {name : Text} {params : Option (Params Node)} {args : List Node} {names texts : List Text}
      {named : List (Text × Text)} {body : Node} {t : Session}
      (hready : Readies v params args s texts named t) (hname : Builtin.ofName? name = none)
      (hbound : t.scopes.lookup? t.scopes.current name = some (.function names body))
      (hlength : texts.length = names.length) :
      Calls s (.call name params args) body (callBindings names texts named) t

/-- While a layer at a location is visited from `s`, it does something itself in `t`. -/
inductive Does (l : Location) (s : Session) : Form Node → Deed → Location → Session → Prop where
  | url {target : Node} {x : Text} {t : Session} (h : (v target).Runs s x t) :
      Does l s (.url target) (.url x.trim) l t
  | file {target : Node} {x : Text} {t : Session} (h : (v target).Runs s x t) :
      Does l s (.file target) (.file x.trim) l t
  | command {target : Node} {x : Text} {t : Session} (h : (v target).Runs s x t) :
      Does l s (.exec target) (.command x) l t
  | expression {source : Text} : Does l s (.expression source) (.expression source) l s
  | builtin {name : Text} {params : Option (Params Node)} {args : List Node} {texts : List Text}
      {b : Builtin} {t : Session} (hready : Readies v params args s texts [] t)
      (hname : Builtin.ofName? name = some b) :
      Does l s (.call name params args) (.builtin b texts) l t
  | define {name body : Node} {params : Params Node} {x : Text} {t : Session}
      (h : (v name).Runs s x t) :
      Does l s (.define name params body) (.define x.trim params.keys body) name.location t

end Layers

section Keeping

variable {host : Host} {c : Config} {v : Node → Rendering Text} {P : Session → Prop}
  {Q : Stop → Session → Prop} {s t : Session} {form : Form Node} {n : Node} {l : Location}

theorem Rounds.of {condition next body : Node} (h : Rounds v condition next body s t) (hs : P s)
    (hcondition : ∀ i, Rounds v condition next body s i → P i → Ends P Q (v condition) i)
    (hbody : ∀ i x i₁, Rounds v condition next body s i → (v condition).Runs i x i₁ →
      holds x = true → P i₁ → Ends P Q (v body) i₁)
    (hnext : ∀ i x i₁ y i₂, Rounds v condition next body s i → (v condition).Runs i x i₁ →
      holds x = true → (v body).Runs i₁ y i₂ → P i₂ → Ends P Q (v next) i₂) : P t := by
  induction h with
  | none => exact hs
  | one before hx hholds hy hz ih =>
    have h₁ := (hcondition _ before ih).runs hx
    have h₂ := (hbody _ _ _ before hx hholds h₁).runs hy
    exact (hnext _ _ _ _ _ before hx hholds hy h₂).runs hz

theorem ends_runLoop {condition next body : Node} (rounds : Nat) (done : List Text)
    (h : Rounds v condition next body s t) (ht : P t) (exhausted : ∀ t, P t → Q .exhausted t)
    (hcondition : ∀ i, Rounds v condition next body s i → P i → Ends P Q (v condition) i)
    (hbody : ∀ i x i₁, Rounds v condition next body s i → (v condition).Runs i x i₁ →
      holds x = true → P i₁ → Ends P Q (v body) i₁)
    (hnext : ∀ i x i₁ y i₂, Rounds v condition next body s i → (v condition).Runs i x i₁ →
      holds x = true → (v body).Runs i₁ y i₂ → P i₂ → Ends P Q (v next) i₂) :
    Ends P Q (runLoop (v condition) (v body) (v next) rounds done) t := by
  induction rounds generalizing t done with
  | zero => exact .of_stops rfl (exhausted t ht)
  | succ rounds ih =>
    unfold runLoop
    refine (hcondition t h ht).bind fun x t₁ hx ht₁ => ?_
    cases hholds : holds x with
    | false => exact .of_runs rfl ht₁
    | true =>
      refine (hbody t x t₁ h hx hholds ht₁).bind fun y t₂ hy ht₂ => ?_
      refine (hnext t x t₁ y t₂ h hx hholds hy ht₂).bind fun z t₃ hz ht₃ => ?_
      exact ih (y :: done) (.one h hx hholds hy hz) ht₃

theorem Misses.of {subject : Text} {cases before : List Node} (h : Misses v subject s before t)
    (hs : P s) (hbefore : before <+: cases) (hvalue : ∀ done value body l rest i,
      cases = done ++ .mk (.case value body) l :: rest → Misses v subject s done i → P i →
      Ends P Q (v value) i) : P t := by
  induction h with
  | nil => exact hs
  | other _ _ ih => exact ih ((List.prefix_append _ _).trans hbefore)
  | value before hx _ ih =>
    have hmissed := ih ((List.prefix_append _ _).trans hbefore)
    obtain ⟨rest, rfl⟩ := hbefore
    exact (hvalue _ _ _ _ rest _ (List.append_assoc _ _ _) before hmissed).runs hx

theorem ends_runCases {subject : Text} {before cases : List Node}
    (h : Misses v subject s before t) (ht : P t)
    (hvalue : ∀ done value body l after i,
      before ++ cases = done ++ .mk (.case value body) l :: after →
      Misses v subject s done i → P i → Ends P Q (v value) i)
    (hbody : ∀ done value body l after i i₁,
      before ++ cases = done ++ .mk (.case value body) l :: after →
      Misses v subject s done i → (v value).Runs i subject i₁ → P i₁ → Ends P Q (v body) i₁) :
    Ends P Q (runCases v subject cases) t := by
  induction cases generalizing before t with
  | nil => exact .of_runs rfl ht
  | cons n cases ih =>
    have hsplit : before ++ n :: cases = before ++ [n] ++ cases := by simp
    by_cases hcase : ∃ value body, n.form = .case value body
    · obtain ⟨form, l⟩ := n
      obtain ⟨value, body, rfl⟩ := hcase
      unfold runCases
      refine (hvalue before value body l cases t rfl h ht).bind fun x t₁ hx ht₁ => ?_
      by_cases heq : x = subject
      · rw [if_pos heq]
        exact hbody before value body l cases t t₁ rfl h (heq ▸ hx) ht₁
      · rw [if_neg heq]
        rw [hsplit] at hvalue hbody
        exact ih (.value h hx heq) ht₁ hvalue hbody
    · rw [hsplit] at hvalue hbody
      have hrest := ih (.other h fun value body hn => hcase ⟨value, body, hn⟩) ht hvalue hbody
      obtain ⟨form, l⟩ := n
      cases form with
      | case value body => exact absurd ⟨value, body, rfl⟩ hcase
      | _ => exact hrest

section Layer

variable (hs : P s) (visited : ∀ n t, Begins v s form n t → P t → Ends P Q (v n) t)

include hs visited

theorem ends_statements {body before after : List Node} (hform : form = .group body)
    (hbody : body = before ++ after) : Ends P Q (before.mapM v) s := by
  refine .mapM hs fun done n rest texts t hbefore hdone ht => visited n t ?_ ht
  rw [hform, hbody, hbefore, List.append_assoc]
  exact .statement hdone

theorem ends_args {name : Text} {params : Option (Params Node)} {args before after : List Node}
    (hform : form = .call name params args) (hargs : args = before ++ after) :
    Ends P Q (before.mapM v) s := by
  refine .mapM hs fun done n rest texts t hbefore hdone ht => visited n t ?_ ht
  rw [hform, hargs, hbefore, List.append_assoc]
  exact .argument hdone

theorem ends_entries {name : Text} {params : Option (Params Node)} {args : List Node}
    {texts : List Text} {before after : List (Text × Option Node)}
    (hform : form = .call name params args) (hargs : (args.mapM v).Runs s texts t)
    (hentries : params.elim [] Params.entries = before ++ after) :
    Ends P Q (before.mapM (visitEntry v)) t := by
  have ht : P t := (ends_args hs visited hform (List.append_nil args).symm).runs hargs
  refine .mapM ht fun done entry rest named i hbefore hdone hi => ?_
  obtain ⟨key, _ | n⟩ := entry
  · exact .of_runs rfl hi
  · have hbegins : Begins v s form n i := by
      cases params with
      | none => simp [hbefore] at hentries
      | some p =>
        obtain ⟨entries, l⟩ := p
        obtain rfl : entries = done ++ (key, some n) :: (rest ++ after) := by
          simpa [hbefore] using hentries
        rw [hform]
        exact .entry hargs hdone
    exact (visited n i hbegins hi).bind fun _ _ _ h => .of_runs rfl h

theorem Readies.of {name : Text} {params : Option (Params Node)} {args : List Node}
    {texts : List Text} {named : List (Text × Text)} (hform : form = .call name params args)
    (h : Readies v params args s texts named t) : P t := by
  obtain ⟨i, hargs, hnamed⟩ := h
  exact (ends_entries hs visited hform hargs (List.append_nil _).symm).runs hnamed

theorem Begins.of (h : Begins v s form n t) : P t := by
  have looped : ∀ {first condition next body : Node} {x : Text} {i t : Session},
      form = .loop first condition next body → (v first).Runs s x i →
      Rounds v condition next body i t → P t := by
    rintro first condition next body x i t rfl hfirst hrounds
    refine hrounds.of (Q := Q) ((visited _ _ .first hs).runs hfirst) ?_ ?_ ?_
    · exact fun t h => visited _ _ (.again hfirst h)
    · exact fun t x t₁ h hx hholds => visited _ _ (.body hfirst h hx hholds)
    · exact fun t x t₁ y t₂ h hx hholds hy => visited _ _ (.next hfirst h hx hholds hy)
  have missed : ∀ {subject : Node} {cases before after : List Node} {x : Text} {i t : Session},
      form = .choice subject cases → cases = before ++ after → (v subject).Runs s x i →
      Misses v x i before t → P t := by
    rintro subject cases before after x i t rfl hcases hsubject hbefore
    refine hbefore.of (Q := Q) ((visited _ _ .subject hs).runs hsubject) ⟨after, hcases.symm⟩ ?_
    intro done value body l rest i hsplit hdone
    refine visited _ _ ?_
    rw [hsplit]
    exact .value hsubject hdone
  cases h with
  | statement hbefore => exact (ends_statements hs visited rfl rfl).runs hbefore
  | argument hbefore => exact (ends_args hs visited rfl rfl).runs hbefore
  | entry hargs hbefore => exact (ends_entries hs visited rfl hargs rfl).runs hbefore
  | yes hcondition _ => exact (visited _ _ .condition hs).runs hcondition
  | no hcondition _ => exact (visited _ _ .condition hs).runs hcondition
  | again hfirst hrounds => exact looped rfl hfirst hrounds
  | body hfirst hrounds hcondition _ =>
    exact (visited _ _ (.again hfirst hrounds) (looped rfl hfirst hrounds)).runs hcondition
  | next hfirst hrounds hcondition hy hbody =>
    have hlooped := looped rfl hfirst hrounds
    have hmet := (visited _ _ (.again hfirst hrounds) hlooped).runs hcondition
    exact (visited _ _ (.body hfirst hrounds hcondition hy) hmet).runs hbody
  | value hsubject hbefore => exact missed rfl rfl hsubject hbefore
  | found hsubject hbefore hvalue =>
    have hmissed := missed rfl rfl hsubject hbefore
    exact (visited _ _ (.value hsubject hbefore) hmissed).runs hvalue
  | _ => exact hs

theorem Calls.of {bindings : Scope} (h : Calls v s form n bindings t) : P t := by
  obtain ⟨hready⟩ := h
  exact hready.of hs visited rfl

theorem Does.of {d : Deed} {l' : Location} (h : Does v l s form d l' t) : P t := by
  cases h with
  | url h => exact (visited _ _ .url hs).runs h
  | file h => exact (visited _ _ .file hs).runs h
  | command h => exact (visited _ _ .exec hs).runs h
  | expression => exact hs
  | builtin hready _ => exact hready.of hs visited rfl
  | define h => exact (visited _ _ .name hs).runs h

variable
  (called : ∀ n bindings t, Calls v s form n bindings t → P t →
    Ends (fun t => P t.closed) (fun e t => Q e t.closed) (v n) (t.opened bindings))
  (done : ∀ d l' t, Does v l s form d l' t → P t → Ends P Q (d.run host c l') t)
  (failed : (∀ body, form ≠ .group body) → ∀ cause t, P t → Q (.failed ⟨[], .render cause, l⟩) t)

include called done failed

/-- A call runs a built-in command or the body of a function, gives the text of a variable, or
fails. -/
theorem ends_runCall {name : Text} {params : Option (Params Node)} {args : List Node}
    {texts : List Text} {named : List (Text × Text)} (hform : form = .call name params args)
    (h : Readies v params args s texts named t) :
    Ends P Q (runCall host c v name texts named l) t := by
  subst hform
  have ht : P t := h.of hs visited rfl
  have fails : ∀ cause, Ends P Q (fail cause l : Rendering Text) t :=
    fun cause => .of_stops rfl (failed nofun cause t ht)
  unfold runCall
  cases hname : Builtin.ofName? name with
  | some b =>
    cases named with
    | nil => exact done _ _ _ (.builtin h hname) ht
    | cons p named => exact fails _
  | none =>
    refine Ends.bind (.of_runs rfl ht) fun scopes t' hscopes _ => ?_
    obtain ⟨rfl, rfl⟩ := runs_scopes.1 hscopes
    cases hbound : t'.scopes.lookup? t'.scopes.current name with
    | none =>
      dsimp only
      split
      · exact fails _
      · exact fails _
    | some b =>
      dsimp only
      split
      · exact fails _
      · next hlength =>
        cases b with
        | text value => exact .of_runs rfl ht
        | function names body =>
          exact .inScope (called _ _ _ (.intro h hname hbound (not_not.1 hlength)) ht)

end Layer

section Layer

variable {steps : Nat} (hs : P s)
  (visited : ∀ n t, Begins (visit host c steps) s form n t → P t →
    Ends P Q (visit host c steps n) t)
  (called : ∀ n bindings t, Calls (visit host c steps) s form n bindings t → P t →
    Ends (fun t => P t.closed) (fun e t => Q e t.closed) (visit host c steps n) (t.opened bindings))
  (done : ∀ d l' t, Does (visit host c steps) l s form d l' t → P t →
    Ends P Q (d.run host c l') t)
  (failed : (∀ body, form ≠ .group body) → ∀ cause t, P t → Q (.failed ⟨[], .render cause, l⟩) t)
  (exhausted : ∀ t, P t → Q .exhausted t)

include hs visited called done failed exhausted

/-- A visit ends as the visits of its parts do, the bodies it calls and what it does itself, or it
fails where the node stands. -/
theorem ends_visit : Ends P Q (visit host c (steps + 1) (.mk form l)) s := by
  have keeps : ∀ {n t}, Begins (visit host c steps) s form n t →
      Ends P Q (visit host c steps n) t := fun h => visited _ _ h (h.of hs visited)
  have finishes : ∀ {d l' t}, Does (visit host c steps) l s form d l' t →
      Ends P Q (d.run host c l') t := fun h => done _ _ _ h (h.of hs visited)
  cases form with
  | group body =>
    have hbody := ends_statements hs visited rfl (List.append_nil body).symm
    exact hbody.bind fun _ _ _ h => .of_runs rfl h
  | raw text => exact .of_runs rfl hs
  | call name params args =>
    have hargs := ends_args hs visited rfl (List.append_nil args).symm
    refine hargs.bind fun texts i htexts _ => ?_
    refine (ends_entries hs visited rfl htexts (List.append_nil _).symm).bind
      fun named t hnamed _ => ?_
    exact ends_runCall hs visited called done failed rfl ⟨i, htexts, hnamed⟩
  | define name params body => exact (keeps .name).bind fun _ _ h _ => finishes (.define h)
  | branch condition yes no =>
    refine (keeps .condition).bind fun x t hx ht => ?_
    cases hholds : holds x with
    | true => exact keeps (.yes hx hholds)
    | false =>
      cases no with
      | none => exact .of_runs rfl ht
      | some no => exact keeps (.no hx hholds)
  | choice subject cases =>
    refine (keeps .subject).bind fun x t hx ht => ?_
    refine ends_runCases .nil ht ?_ ?_
    · rintro before value body l after i rfl hbefore -
      exact keeps (.value hx hbefore)
    · rintro before value body l after i i₁ rfl hbefore hvalue -
      exact keeps (.found hx hbefore hvalue)
  | case value body => exact .of_stops rfl (failed nofun _ s hs)
  | loop first condition next body =>
    refine (keeps .first).bind fun x t hx ht => ?_
    refine ends_runLoop steps [] .none ht exhausted ?_ ?_ ?_
    · exact fun i h _ => keeps (.again hx h)
    · exact fun i y i₁ h hy hholds _ => keeps (.body hx h hy hholds)
    · exact fun i y i₁ z i₂ h hy hholds hz _ => keeps (.next hx h hy hholds hz)
  | url target => exact (keeps .url).bind fun _ _ h _ => finishes (.url h)
  | file target => exact (keeps .file).bind fun _ _ h _ => finishes (.file h)
  | use target hash params => exact .of_runs rfl hs
  | exec command => exact (keeps .exec).bind fun _ _ h _ => finishes (.command h)
  | expression source => exact finishes .expression
  | comment text => exact .of_runs rfl hs

end Layer

theorem final_visit_of {steps : Nat} (hs : P s)
    (visited : ∀ n t, Begins (visit host c steps) s form n t → P t →
      P ((visit host c steps n).final t))
    (called : ∀ n bindings t, Calls (visit host c steps) s form n bindings t → P t →
      P ((visit host c steps n).final (t.opened bindings)).closed)
    (done : ∀ d l' t, Does (visit host c steps) l s form d l' t → P t →
      P ((d.run host c l').final t)) : P ((visit host c (steps + 1) (.mk form l)).final s) := by
  refine ends_iff_final.1 (ends_visit hs ?_ ?_ ?_ (fun _ _ _ h => h) fun _ h => h)
  · exact fun n t hbegins ht => ends_iff_final.2 (visited n t hbegins ht)
  · exact fun n bindings t hcalls ht =>
      (ends_iff_final (P := fun t => P t.closed)).2 (called n bindings t hcalls ht)
  · exact fun d l' t hdoes ht => ends_iff_final.2 (done d l' t hdoes ht)

end Keeping

section Ways

variable (host : Host) (c : Config)

/-- The visit of a node, with some steps allowed, comes to the visit of another node. -/
inductive Visits : Nat → Node → Session → Nat → Node → Session → Prop where
  | here (steps : Nat) (n : Node) (s : Session) : Visits steps n s steps n s
  | part {steps k : Nat} {form : Form Node} {l : Location} {n m : Node} {s t u : Session}
      (first : Begins (visit host c steps) s form n t) (rest : Visits steps n t k m u) :
      Visits (steps + 1) (.mk form l) s k m u
  | body {steps k : Nat} {form : Form Node} {l : Location} {n m : Node} {bindings : Scope}
      {s t u : Session} (first : Calls (visit host c steps) s form n bindings t)
      (rest : Visits steps n (t.opened bindings) k m u) :
      Visits (steps + 1) (.mk form l) s k m u

/-- While a node is visited, something is done in a session. -/
inductive Acts (steps : Nat) (n : Node) (s : Session) : Deed → Location → Session → Prop where
  | intro {k : Nat} {form : Form Node} {l l' : Location} {d : Deed} {t u : Session}
      (way : Visits host c steps n s (k + 1) (.mk form l) t)
      (does : Does (visit host c k) l t form d l' u) : Acts steps n s d l' u

/-- The visit of a node passes through a session. -/
inductive Passes (steps : Nat) (n : Node) (s : Session) : Session → Prop where
  | begins {k : Nat} {m : Node} {t : Session} (way : Visits host c steps n s k m t) :
      Passes steps n s t
  | ends {k : Nat} {m : Node} {t : Session} (way : Visits host c steps n s k m t) :
      Passes steps n s ((visit host c k m).final t)
  | acts {d : Deed} {l : Location} {t : Session} (h : Acts host c steps n s d l t) :
      Passes steps n s t
  | calls {k : Nat} {form : Form Node} {l : Location} {m : Node} {bindings : Scope}
      {t u : Session} (way : Visits host c steps n s (k + 1) (.mk form l) t)
      (h : Calls (visit host c k) t form m bindings u) : Passes steps n s u

/-- What is kept of a session by some nodes, with their parts and the bodies they call. -/
structure LastingOn (N : Node → Prop) (P : Session → Prop) : Prop where
  part : ∀ {n q : Node}, N n → q ∈ n.form.parts → N q
  body : ∀ {v : Node → Rendering Text} {form : Form Node} {l : Location} {n : Node}
    {bindings : Scope} {s t : Session}, N (.mk form l) → Calls v s form n bindings t → P t → N n
  opened : ∀ {v : Node → Rendering Text} {form : Form Node} {l : Location} {n : Node}
    {bindings : Scope} {s t : Session}, N (.mk form l) → Calls v s form n bindings t → P t →
      P (t.opened bindings)
  closed : ∀ {s : Session}, P s → P s.closed
  done : ∀ {v : Node → Rendering Text} {form : Form Node} {l l' : Location} {d : Deed}
    {s t : Session}, N (.mk form l) → Does v l s form d l' t → P t → P ((d.run host c l').final t)

/-- What is kept of a session whatever a program does to it. -/
structure Lasting (P : Session → Prop) : Prop where
  opened : ∀ {s : Session} (names texts : List Text) (named : List (Text × Text)), P s →
    P (s.opened (callBindings names texts named))
  closed : ∀ {s : Session}, P s → P s.closed
  done : ∀ {s : Session} (d : Deed) (l : Location), P s → P ((d.run host c l).final s)

end Ways

theorem Readies.outcome_visit {host : Host} {c : Config} {steps : Nat} {name : Text}
    {params : Option (Params Node)} {args : List Node} {texts : List Text}
    {named : List (Text × Text)} {l : Location} {s t : Session}
    (h : Readies (visit host c steps) params args s texts named t) :
    (visit host c (steps + 1) (.mk (.call name params args) l)).outcome s =
      (runCall host c (visit host c steps) name texts named l).outcome t := by
  obtain ⟨i, hargs, hnamed⟩ := h
  have hcall : visit host c (steps + 1) (.mk (.call name params args) l) = (do
      let texts ← args.mapM (visit host c steps)
      let named ← (params.elim [] Params.entries).mapM (visitEntry (visit host c steps))
      runCall host c (visit host c steps) name texts named l) := rfl
  rw [hcall, outcome_bind, show Rendering.outcome _ s = _ from hargs]
  dsimp only
  rw [outcome_bind, show Rendering.outcome _ i = _ from hnamed]

theorem Does.outcome_visit {host : Host} {c : Config} {steps : Nat} {form : Form Node}
    {l l' : Location} {d : Deed} {s t : Session}
    (h : Does (visit host c steps) l s form d l' t) :
    (visit host c (steps + 1) (.mk form l)).outcome s = (d.run host c l').outcome t := by
  have goesOn : ∀ {n : Node} {x : Text} {f : Text → Rendering Text},
      (visit host c steps n).Runs s x t →
        (visit host c steps n >>= f).outcome s = (f x).outcome t := by
    intro n x f hn
    rw [outcome_bind, show Rendering.outcome _ s = _ from hn]
  cases h with
  | url h => exact goesOn h
  | file h => exact goesOn h
  | command h => exact goesOn h
  | expression => rfl
  | builtin hready hname =>
    rw [hready.outcome_visit]
    unfold runCall
    rw [hname]
    rfl
  | define h => exact goesOn h

section Ways

variable {host : Host} {c : Config} {steps k : Nat} {n m : Node} {s t u : Session}
  {P : Session → Prop}

theorem Visits.trans {k' : Nat} {m' : Node} (way : Visits host c steps n s k m t)
    (rest : Visits host c k m t k' m' u) : Visits host c steps n s k' m' u := by
  induction way with
  | here => exact rest
  | part first _ ih => exact .part first (ih rest)
  | body first _ ih => exact .body first (ih rest)

theorem Acts.part {form : Form Node} {l l' : Location} {d : Deed}
    (first : Begins (visit host c steps) s form n t) (h : Acts host c steps n t d l' u) :
    Acts host c (steps + 1) (.mk form l) s d l' u := by
  obtain ⟨way, does⟩ := h
  exact .intro (.part first way) does

theorem Begins.mem_parts {v : Node → Rendering Text} {form : Form Node}
    (h : Begins v s form n t) : n ∈ form.parts ∨ ∃ q ∈ form.parts, n ∈ q.form.parts := by
  have arm : ∀ {subject value body : Node} {before after : List Node} {l : Location},
      n ∈ [value, body] →
        ∃ q ∈ (Form.choice subject (before ++ .mk (.case value body) l :: after)).parts,
        n ∈ q.form.parts := by
    intro subject value body before after l hn
    exact ⟨.mk (.case value body) l, by simp [Form.parts, Form.ownParts],
      List.mem_append_left _ hn⟩
  cases h with
  | @entry name key =>
    exact .inl (Form.mem_parts.2 (.inr ⟨_, rfl, Params.mem_values.2 ⟨key, by simp⟩⟩))
  | value => exact .inr (arm (by simp))
  | found => exact .inr (arm (by simp))
  | _ => exact .inl (List.mem_append_left _ (by simp [Form.ownParts]))

section Kept

variable {N : Node → Prop} (h : LastingOn host c N P)

include h

theorem LastingOn.begins {v : Node → Rendering Text} {form : Form Node} {l : Location}
    (hn : N (.mk form l)) (hbegins : Begins v s form m t) : N m := by
  obtain hm | ⟨q, hq, hm⟩ := hbegins.mem_parts
  · exact h.part hn hm
  · exact h.part (h.part hn hq) hm

theorem LastingOn.ends {E : Stop → Prop} (exhausted : E .exhausted)
    (failed : ∀ {form l} cause, N (.mk form l) → (∀ body, form ≠ .group body) →
      E (.failed ⟨[], .render cause, l⟩))
    (acted : ∀ {v : Node → Rendering Text} {form l d l' s t e u}, N (.mk form l) →
      Does v l s form d l' t → (d.run host c l').Stops t e u → E e)
    (steps : Nat) (hn : N n) (hs : P s) :
    Ends P (fun e t => E e ∧ P t) (visit host c steps n) s := by
  induction steps generalizing n s with
  | zero => exact .of_stops rfl ⟨exhausted, hs⟩
  | succ steps ih =>
    obtain ⟨form, l⟩ := n
    refine ends_visit hs (fun _ _ hbegins ht => ih (h.begins hn hbegins) ht) ?_ ?_ ?_ ?_
    · intro n bindings t hcalls ht
      have hbody := ih (h.body hn hcalls ht) (h.opened hn hcalls ht)
      exact ⟨fun hr => h.closed (hbody.runs hr), fun hr => (hbody.stops hr).imp_right h.closed⟩
    · intro d l' t hdoes ht
      have hdone := ends_iff_final.2 (h.done hn hdoes ht)
      exact ⟨hdone.runs, fun hr => ⟨acted hn hdoes hr, hdone.stops hr⟩⟩
    · exact fun hgroup cause t ht => ⟨failed cause hn hgroup, ht⟩
    · exact fun t ht => ⟨exhausted, ht⟩

theorem LastingOn.visit (steps : Nat) (hn : N n) (hs : P s) :
    P ((visit host c steps n).final s) := by
  have hends := h.ends (E := fun _ => True) trivial (fun _ _ _ => trivial)
    (fun _ _ _ => trivial) steps hn hs
  exact ends_iff_final.1 ⟨hends.runs, fun hr => (hends.stops hr).2⟩

theorem LastingOn.visited {form : Form Node} {l : Location} (hn : N (.mk form l)) (m : Node)
    (t : Session) (hbegins : Begins (Stencil.visit host c steps) s form m t) (ht : P t) :
    Ends P (fun _ => P) (Stencil.visit host c steps m) t :=
  ends_iff_final.2 (h.visit steps (h.begins hn hbegins) ht)

/-- Where a visit of one of the nodes comes to, it comes to one of them, and what is kept holds. -/
theorem LastingOn.visits (way : Visits host c steps n s k m t) (hn : N n) (hs : P s) :
    N m ∧ P t := by
  induction way with
  | here => exact ⟨hn, hs⟩
  | part first _ ih => exact ih (h.begins hn first) (first.of hs (h.visited hn))
  | body first _ ih =>
    have ht := first.of hs (h.visited hn)
    exact ih (h.body hn first ht) (h.opened hn first ht)

/-- What is kept holds at every moment of a visit of one of the nodes. -/
theorem LastingOn.passes (hp : Passes host c steps n s t) (hn : N n) (hs : P s) : P t := by
  cases hp with
  | begins way => exact (h.visits way hn hs).2
  | ends way =>
    obtain ⟨hm, ht⟩ := h.visits way hn hs
    exact h.visit _ hm ht
  | acts ha =>
    obtain ⟨way, does⟩ := ha
    obtain ⟨hm, ht⟩ := h.visits way hn hs
    exact does.of ht (h.visited hm)
  | calls way hcalls =>
    obtain ⟨hm, ht⟩ := h.visits way hn hs
    exact hcalls.of ht (h.visited hm)

end Kept

theorem Lasting.lastingOn (h : Lasting host c P) : LastingOn host c (fun _ => True) P where
  part _ _ := trivial
  body _ _ _ := trivial
  opened _ hcalls ht := by
    obtain ⟨-⟩ := hcalls
    exact h.opened _ _ _ ht
  closed := h.closed
  done _ _ ht := h.done _ _ ht

theorem Lasting.visit (h : Lasting host c P) (steps : Nat) (n : Node) (hs : P s) :
    P ((visit host c steps n).final s) := h.lastingOn.visit steps trivial hs

theorem Lasting.passes (h : Lasting host c P) (hp : Passes host c steps n s t) (hs : P s) : P t :=
  h.lastingOn.passes hp trivial hs

end Ways

section Programs

variable {host : Host} {c : Config} {steps : Nat} {program : List Node} {j : Journal}

/-- The visit that renders a program: its statements are those of a group. -/
def visitProgram (host : Host) (c : Config) (steps : Nat) (program : List Node) : Rendering Text :=
  visit host c (steps + 1) (.mk (.group program) .start)

/-- The rendering of a program, with a journal to begin with, passes through a session. -/
def Moment (host : Host) (c : Config) (steps : Nat) (program : List Node) (j : Journal) :
    Session → Prop :=
  Passes host c (steps + 1) (.mk (.group program) .start) ⟨.initial, j⟩

/-- A program is rendered in a single scope, and its failures tell the file of the template at
least. -/
theorem outcome_interpret : (interpret steps host c program).outcome j =
    match (visitProgram host c steps program).outcome ⟨.initial, j⟩ with
    | (.ok t, s) => (.ok t, s.journal)
    | (.error (.failed f), s) =>
      (.error (.failed { f with location := f.location.stamp c.fileName }), s.journal)
    | (.error .exhausted, s) => (.error .exhausted, s.journal) := by
  have hvisit : visitProgram host c steps program = (do
      return (← program.mapM (visit host c steps)).flatten) := rfl
  rw [hvisit, outcome_bind]
  unfold interpret Action.outcome Rendering.outcome
  rw [ExceptT.run_mk]
  unfold StateT.run
  dsimp only
  match (program.mapM (visit host c steps)).run ⟨.initial, j⟩ with
  | (.ok texts, s) => rfl
  | (.error (.failed f), s) => rfl
  | (.error .exhausted, s) => rfl

/-- What is kept whatever a program does holds at every moment of its rendering. -/
theorem Lasting.moment {P : Session → Prop} {s : Session} (h : Lasting host c P)
    (hs : P ⟨.initial, j⟩) (hmoment : Moment host c steps program j s) : P s :=
  h.passes hmoment hs

end Programs

end Stencil
