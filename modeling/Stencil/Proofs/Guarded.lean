import Stencil.Proofs.Tracking

/-! Reading tokens one at a time, and reading them with a cursor. The reader that goes over tokens
with a cursor is never wrong about what it takes for granted, and makes of all tokens what taking
them one at a time makes of them. -/
namespace Stencil
namespace Guarded

open Cursor

variable {B : Except (Fault ParseCause) (List Node)} {d : Delimiters} {c : Cursor} {t : Token}
  {levels : List Level} {body : List Node} {o : Opening} {inner : Guarded (List Node)} {n : Nat}

theorem judged_bind {α β : Type} (e : Except (Fault ParseCause) α)
    (f : α → Except (Fault ParseCause) β) :
    judged (e >>= f) = judged e >>= fun a => judged (f a) := by
  cases e <;> rfl

/-- A command is never short of arguments. -/
theorem node_eq (o : Opening) : node o = judged o.node := by
  obtain ⟨construct, name, p, params, args⟩ := o
  cases construct with
  | none => rfl
  | some k =>
    have hchoice : ∀ subject : Node, ∀ arms : Except (Fault ParseCause) (List Node),
        (judged arms >>= fun found => pure (Form.choice subject found)) >>=
          (fun form => pure (Node.mk form p.here)) =
        judged ((arms >>= fun found => pure (Form.choice subject found)) >>=
          fun form => pure (Node.mk form p.here)) := by
      intro subject arms
      rw [judged_bind, judged_bind]
      rfl
    rcases params with _ | ⟨_ | ⟨e, es⟩, l⟩ <;>
      rcases args with _ | ⟨a₁, _ | ⟨a₂, _ | ⟨a₃, _ | ⟨a₄, _ | ⟨a₅, args⟩⟩⟩⟩⟩ <;> cases k
    case some.none.cons.cons.nil.choice => exact hchoice a₁ _
    case some.some.nil.cons.cons.nil.choice => exact hchoice a₁ _
    all_goals rfl

-- Behind a judgement of their number the arguments are there; without one, they may not be.
example (o : Opening) (c : Cursor) (h : o.args = []) :
    (form o .file).run c = .error (.breached .noArgument) := by
  unfold form
  rw [h]
  rfl

theorem tracks_judged {α : Type} {P : α → Cursor → Prop} {e : Except (Fault ParseCause) α}
    (hok : ∀ a, e = .ok a → P a c) (herror : ∀ fault, e = .error fault → B = .error fault) :
    Tracks B P (judged e) c := by
  cases e with
  | ok a => exact hok a rfl
  | error fault => exact herror fault rfl

/-- With fewer than `n` tokens left, `inner` reads statements up to a token that begins none. -/
def ReadsParts (d : Delimiters) (n : Nat) (inner : Guarded (List Node)) : Prop :=
  ∀ B c level levels, c.left < n → B = c.onward d (level :: levels) [] .statements →
    Tracks B (fun body c' => B = c'.onward d (level :: levels) body .statements ∧
      c'.left ≤ c.left ∧ c'.AtClose d) inner c

theorem tracks_arguments {steps : Nat} {args : List Node} (hinner : ReadsParts d n inner)
    (hn : c.left ≤ n) (hsteps : c.left < steps)
    (hB : B = c.onward d levels body (.arguments { o with args })) :
    Tracks B (fun args' c' => B = c'.onward d levels body (.arguments { o with args := args' }) ∧
      c'.isAt .argStart = false ∧ c'.left ≤ c.left)
      (arguments inner o.insistent steps args) c := by
  induction steps generalizing c args with
  | zero => exact absurd hsteps (Nat.not_lt_zero _)
  | succ steps ih =>
    rw [arguments]
    refine Tracks.isAt_ite (fun t ht hkind => ?_) fun hat => ⟨hB, hat, le_rfl⟩
    have hleft : c.next.left + 1 = c.left := left_next ht
    refine Tracks.bump_bind ht ?_
    by_cases hkept : args.length < o.insistent
    · rw [if_pos hkept]
      have htake : Reading.take d ⟨levels, body, .arguments { o with args }, c.last⟩ t =
          .ok ⟨levels, body, .kept t.position 0 [] (.argument { o with args }), t.position⟩ := by
        simp only [Reading.take, Reading.argument, if_pos hkind]
        exact if_pos hkept
      refine (tracks_group (by omega) (hB.trans (onward_of_take ht htake))).bind ?_
      rintro source c' ⟨hB', hleft'⟩
      exact (ih (by omega) (by omega) hB').imp fun args' c'' h => ⟨h.1, h.2.1, by omega⟩
    · rw [if_neg hkept]
      have htake : Reading.take d ⟨levels, body, .arguments { o with args }, c.last⟩ t =
          .ok ⟨⟨body, { o with args }, .argument t.position⟩ :: levels, [], .statements,
            t.position⟩ := by
        simp only [Reading.take, Reading.argument, if_pos hkind]
        exact if_neg hkept
      refine (hinner _ _ _ _ (by omega) (hB.trans (onward_of_take ht htake))).bind ?_
      rintro part c' ⟨hB', hleft', hclose⟩
      refine Tracks.expect_bind (fun t' ht' hkind' => ?_) (fun t' ht' hkind' => ?_) fun hend => ?_
      · have hleft'' : c'.next.left + 1 = c'.left := left_next ht'
        have htake' : Reading.take d ⟨⟨body, { o with args }, .argument t.position⟩ :: levels,
            part, .statements, c'.last⟩ t' = .ok ⟨levels, body, .arguments { o with
              args := args ++ [.mk (.group part) t.position.here] }, t'.position⟩ := by
          rw [hclose.take ht']
          exact if_pos hkind'
        have hrest := ih (c := c'.next) (by omega) (by omega)
          (hB'.trans (onward_of_take ht' htake'))
        exact hrest.imp fun args' c'' h => ⟨h.1, h.2.1, by omega⟩
      · refine hB'.trans (onward_of_refused ht' ?_)
        rw [hclose.take ht']
        exact if_neg hkind'
      · rw [hB', onward_of_none hend]
        rfl

/-- An entry of a list of parameters is read, and the list goes on or ends. -/
structure AfterEntry (B : Except (Fault ParseCause) (List Node)) (d : Delimiters)
    (levels : List Level) (body : List Node) (o : Opening) (params : Params Node) (c : Cursor) :
    Prop where
  goesOn : ∀ t, c.head? = some t → t.kind = .paramSep →
    B = c.next.onward d levels body (.key o params)
  ends : ∀ t, c.head? = some t → t.kind = .paramEnd →
    B = c.next.onward d levels body (.arguments { o with params := some params })
  refused : ∀ t, c.head? = some t → t.kind ≠ .paramSep → t.kind ≠ .paramEnd →
    B = .error ⟨.expected .paramEnd (some t.kind), t.position⟩
  short : c.head? = none → B = .error ⟨.expected .paramEnd none, c.last⟩

theorem AfterEntry.of_onward {levels' : List Level} {body' : List Node} {mode : Mode}
    {params : Params Node} (hB : B = c.onward d levels' body' mode)
    (htake : ∀ t, c.head? = some t → Reading.take d ⟨levels', body', mode, c.last⟩ t =
      Reading.afterEntry ⟨levels, body, .statements, t.position⟩ o params t)
    (hfinish : Reading.finish ⟨levels', body', mode, c.last⟩ =
      .error ⟨.expected .paramEnd none, c.last⟩) : AfterEntry B d levels body o params c where
  goesOn t ht hkind := by
    refine hB.trans (onward_of_take ht ?_)
    simp only [htake t ht, Reading.afterEntry, hkind]
    rfl
  ends t ht hkind := by
    refine hB.trans (onward_of_take ht ?_)
    simp only [htake t ht, Reading.afterEntry, hkind]
    rfl
  refused t ht hsep hend := by
    refine hB.trans (onward_of_refused ht ?_)
    rw [htake t ht, Reading.afterEntry]
    split
    · next hkind => exact absurd hkind hsep
    · next hkind => exact absurd hkind hend
    · rfl
  short hnone := by rw [hB, onward_of_none hnone, hfinish]

theorem tracks_value? {params : Params Node} {key : Text} (hinner : ReadsParts d n inner)
    (hn : c.left ≤ n) (hB : B = c.onward d levels body (.keyed o params key)) :
    Tracks B (fun value c' => AfterEntry B d levels body o (params.insert key value) c' ∧
      c'.left ≤ c.left) (value? inner) c := by
  rw [value?]
  refine Tracks.isAt_ite (fun t ht hkind => ?_) fun hat => ?_
  · have hleft : c.next.left + 1 = c.left := left_next ht
    have htake : Reading.take d ⟨levels, body, .keyed o params key, c.last⟩ t =
        .ok ⟨⟨body, o, .value params key t.position⟩ :: levels, [], .statements, t.position⟩ :=
      if_pos hkind
    refine Tracks.bump_bind ht ?_
    refine (hinner _ _ _ _ (by omega) (hB.trans (onward_of_take ht htake))).bind ?_
    rintro part c' ⟨hB', hleft', hclose⟩
    exact ⟨.of_onward hB' (fun t' ht' => hclose.take ht') rfl, by omega⟩
  · refine ⟨.of_onward hB (fun t ht => ?_) rfl, le_rfl⟩
    simp only [Reading.take, if_neg (isAt_eq_false_iff.1 hat t ht)]
    rfl

theorem tracks_entries {steps : Nat} {params : Params Node} (hinner : ReadsParts d n inner)
    (hn : c.left ≤ n) (hsteps : c.left < steps) (hB : B = c.onward d levels body (.key o params)) :
    Tracks B (fun params' c' => c'.left ≤ c.left ∧
      B = c'.onward d levels body (.arguments { o with params := some params' }))
      (entries inner steps params) c := by
  induction steps generalizing c params with
  | zero => exact absurd hsteps (Nat.not_lt_zero _)
  | succ steps ih =>
    rw [entries]
    refine Tracks.isAt_ite (fun t ht hkind => ?_) fun hat => ?_
    · have hleft : c.next.left + 1 = c.left := left_next ht
      refine Tracks.expect_bind_of_head ht hkind ⟨by omega, hB.trans (onward_of_take ht ?_)⟩
      simp only [Reading.take, hkind]
      rfl
    refine Tracks.expect_bind (fun t ht hkind => ?_) (fun t ht hkind => ?_) fun hend => ?_
    · have hleft : c.next.left + 1 = c.left := left_next ht
      have htake : Reading.take d ⟨levels, body, .key o params, c.last⟩ t =
          .ok ⟨levels, body, .keyed o params t.text, t.position⟩ := by
        simp only [Reading.take, hkind]
        rfl
      refine (tracks_value? hinner (by omega) (hB.trans (onward_of_take ht htake))).bind ?_
      rintro value c' ⟨hafter, hleft'⟩
      refine Tracks.isAt_ite (fun t' ht' hkind' => ?_) fun hsep => ?_
      · have hleft'' : c'.next.left + 1 = c'.left := left_next ht'
        refine Tracks.bump_bind ht' ?_
        have hrest := ih (c := c'.next) (by omega) (by omega) (hafter.goesOn t' ht' hkind')
        exact hrest.imp fun params' c'' h => ⟨by omega, h.2⟩
      refine Tracks.expect_bind (fun t' ht' hkind' => ?_) (fun t' ht' hkind' => ?_) hafter.short
      · have hleft'' : c'.next.left + 1 = c'.left := left_next ht'
        exact ⟨by omega, hafter.ends t' ht' hkind'⟩
      · exact hafter.refused t' ht' (isAt_eq_false_iff.1 hsep t' ht') hkind'
    · refine hB.trans (onward_of_refused ht ?_)
      have hend : t.kind ≠ .paramEnd := isAt_eq_false_iff.1 hat t ht
      simp only [Reading.take]
      rfl
    · rw [hB, onward_of_none hend]
      rfl

theorem tracks_params? {steps : Nat} (hinner : ReadsParts d n inner) (hn : c.left ≤ n)
    (hsteps : c.left < steps) (ho : o.params = none) (hB : B = c.onward d levels body (.named o)) :
    Tracks B (fun params c' => c'.left ≤ c.left ∧
      B = c'.onward d levels body (.arguments { o with params })) (params? inner steps) c := by
  rw [params?]
  refine Tracks.isAt_ite (fun t ht hkind => ?_) fun hat => ⟨le_rfl, ?_⟩
  · have hleft : c.next.left + 1 = c.left := left_next ht
    have htake : Reading.take d ⟨levels, body, .named o, c.last⟩ t =
        .ok ⟨levels, body, .key o ⟨[], t.position.here⟩, t.position⟩ := if_pos hkind
    refine Tracks.expect_bind_of_head ht hkind ?_
    refine (tracks_entries hinner (by omega) (by omega)
      (hB.trans (onward_of_take ht htake))).bind ?_
    rintro params c' ⟨hleft', hB'⟩
    exact ⟨by omega, hB'⟩
  · rw [hB, onward_named hat, ← ho]

theorem tracks_opening {steps : Nat} (hinner : ReadsParts d n inner) (hn : c.left ≤ n)
    (hsteps : c.left < steps) (hparams : o.params = none) (hargs : o.args = [])
    (hB : B = c.onward d levels body (.named o)) :
    Tracks B (fun node c' => B = c'.onward d levels (body ++ [node]) .statements ∧
      c'.left ≤ c.left) (opening inner steps o) c := by
  refine (tracks_params? hinner hn hsteps hparams hB).bind ?_
  rintro params c' ⟨hleft, hB'⟩
  have hargs' : { o with params } = { { o with params } with args := [] } := by rw [← hargs]
  rw [hargs'] at hB'
  refine (tracks_arguments hinner (by omega) (by omega) hB').bind ?_
  rintro args c'' ⟨hB'', hat, hleft'⟩
  rw [onward_arguments hat] at hB''
  rw [node_eq]
  refine tracks_judged (fun node hnode => ?_) fun fault hfault => ?_
  · refine ⟨hB''.trans ?_, by omega⟩
    rw [hnode]
    rfl
  · rw [hB'', hfault]
    rfl

theorem tracks_comment {steps : Nat} {p : Position} (hsteps : c.left < steps)
    (hB : B = c.onward d levels body (.comment p)) :
    Tracks B (fun node c' => B = c'.onward d levels (body ++ [node]) .statements ∧
      c'.left ≤ c.left) (comment steps p) c := by
  rw [comment]
  refine Tracks.isAt_ite (fun t ht hkind => ?_) fun hat => ?_
  · have hleft : c.next.left + 1 = c.left := left_next ht
    have htake : Reading.take d ⟨levels, body, .comment p, c.last⟩ t =
        .ok ⟨levels, body, .kept t.position 0 [] (.comment p), t.position⟩ := if_pos hkind
    refine Tracks.bump_bind ht ?_
    refine (tracks_group (by omega) (hB.trans (onward_of_take ht htake))).bind ?_
    rintro text c' ⟨hB', hleft'⟩
    exact ⟨hB', by omega⟩
  · rw [onward_comment hat] at hB
    exact (tracks_line hsteps hB).bind fun text c' h => h

theorem tracks_source {steps : Nat} {p : Position} (hsteps : c.left < steps)
    (hB : B = c.onward d levels body (.source p)) :
    Tracks B (fun node c' => B = c'.onward d levels (body ++ [node]) .statements ∧
      c'.left ≤ c.left) (source steps p) c := by
  refine Tracks.expect_bind (fun t ht hkind => ?_) (fun t ht hkind => ?_) fun hend => ?_
  · have hleft : c.next.left + 1 = c.left := left_next ht
    have htake : Reading.take d ⟨levels, body, .source p, c.last⟩ t =
        .ok ⟨levels, body, .kept t.position 0 [] (.source p), t.position⟩ := if_pos hkind
    refine (tracks_group (by omega) (hB.trans (onward_of_take ht htake))).bind ?_
    rintro source c' ⟨hB', hleft'⟩
    exact ⟨hB', by omega⟩
  · exact hB.trans (onward_of_refused ht (if_neg hkind))
  · rw [hB, onward_of_none hend]
    rfl

theorem tracks_headed {steps : Nat} {p : Position} (hinner : ReadsParts d n inner)
    (hn : c.left ≤ n + 1) (hsteps : c.left ≤ steps) (ht : c.head? = some t)
    (hkind : t.kind = .commandName) (hB : B = c.onward d levels body (.name p)) :
    Tracks B (fun node c' => B = c'.onward d levels (body ++ [node]) .statements ∧
      c'.left < c.left) (headed inner steps p t.text) c.next := by
  have hleft : c.next.left + 1 = c.left := left_next ht
  have hmode : ∀ {mode}, Reading.take d ⟨levels, body, .name p, c.last⟩ t =
      .ok ⟨levels, body, mode, t.position⟩ → B = c.next.onward d levels body mode :=
    fun htake => hB.trans (onward_of_take ht htake)
  simp only [Reading.take, if_pos hkind] at hmode
  unfold headed
  cases hheading : Heading.ofName t.text with
  | comment =>
    rw [hheading] at hmode
    exact (tracks_comment (by omega) (hmode rfl)).imp fun node c' h => ⟨h.1, by omega⟩
  | source =>
    rw [hheading] at hmode
    exact (tracks_source (by omega) (hmode rfl)).imp fun node c' h => ⟨h.1, by omega⟩
  | construct k =>
    rw [hheading] at hmode
    exact (tracks_opening hinner (by omega) (by omega) rfl rfl (hmode rfl)).imp
      fun node c' h => ⟨h.1, by omega⟩
  | call =>
    rw [hheading] at hmode
    exact (tracks_opening hinner (by omega) (by omega) rfl rfl (hmode rfl)).imp
      fun node c' h => ⟨h.1, by omega⟩

theorem tracks_command {steps : Nat} (hinner : ReadsParts d n inner) (hn : c.left ≤ n + 1)
    (hsteps : c.left ≤ steps + 1) (ht : c.head? = some t) (hkind : t.kind = .escape)
    (hB : B = c.onward d levels body .statements) :
    Tracks B (fun node c' => B = c'.onward d levels (body ++ [node]) .statements ∧
      c'.left < c.left) (command inner steps) c := by
  have hleft : c.next.left + 1 = c.left := left_next ht
  have htake : Reading.take d ⟨levels, body, .statements, c.last⟩ t =
      .ok ⟨levels, body, .name t.position, t.position⟩ := by
    simp only [Reading.take, Reading.statement, hkind]
    rfl
  have hB' := hB.trans (onward_of_take ht htake)
  refine Tracks.expect_bind_of_head ht hkind ?_
  refine Tracks.expect_bind (fun name hname hcommand => ?_) (fun other ho hother => ?_)
    fun hend => ?_
  · refine (tracks_headed hinner (by omega) (by omega) hname hcommand hB').imp ?_
    rintro node c' ⟨hB'', hleft'⟩
    exact ⟨hB'', by omega⟩
  · exact hB'.trans (onward_of_refused ho (if_neg hother))
  · rw [hB', onward_of_none hend]
    rfl

/-- Statements are read to a token that begins none, and outside all commands to the end. -/
theorem tracks_statements {steps : Nat} {nested : Bool} (hsteps : c.left < steps)
    (hnested : nested = false ↔ levels = []) (hB : B = c.onward d levels body .statements) :
    Tracks B (fun body' c' => B = c'.onward d levels body' .statements ∧ c'.left ≤ c.left ∧
      c'.AtClose d ∧ (nested = false → c'.head? = none)) (statements d steps nested body) c := by
  induction steps generalizing B c levels body nested with
  | zero => exact absurd hsteps (Nat.not_lt_zero _)
  | succ steps ih =>
    have hinner : ReadsParts d steps (statements d steps true []) := by
      intro B c level levels hleft hB
      refine (ih hleft (by simp) hB).imp ?_
      rintro body' c' ⟨hB', hleft', hclose, -⟩
      exact ⟨hB', hleft', hclose⟩
    rw [statements, tracks_peek?_bind]
    cases ht : c.head? with
    | none => exact ⟨hB, le_rfl, atClose_of_none ht, fun _ => ht⟩
    | some t =>
      have hgoes : ∀ {node c'}, B = c'.onward d levels (body ++ [node]) .statements →
          c'.left < c.left → Tracks B (fun body' c' => B = c'.onward d levels body' .statements ∧
            c'.left ≤ c.left ∧ c'.AtClose d ∧ (nested = false → c'.head? = none))
            (statements d steps nested (body ++ [node])) c' := by
        intro node c' hB' hleft
        refine (ih (by omega) hnested hB').imp ?_
        rintro body' c'' ⟨hB'', hleft', hclose⟩
        exact ⟨hB'', by omega, hclose⟩
      have hleft : c.next.left + 1 = c.left := left_next ht
      dsimp only
      split
      · next hkind =>
        refine Tracks.bump_bind ht (hgoes (hB.trans (onward_of_take ht ?_)) (by omega))
        simp only [Reading.take, Reading.statement, hkind]
        rfl
      · next hkind =>
        refine Tracks.bump_bind ht (hgoes (hB.trans (onward_of_take ht ?_)) (by omega))
        simp only [Reading.take, Reading.statement, hkind]
        rfl
      · next hkind =>
        refine (tracks_command hinner (by omega) (by omega) ht hkind hB).bind ?_
        rintro node c' ⟨hB', hleft'⟩
        exact hgoes hB' hleft'
      · next hraw hexpression hescape =>
        have hclose : c.AtClose d := by
          intro t' ht' r
          obtain rfl := Option.some.inj (ht.symm.trans ht')
          simp only [Reading.statement]
        cases nested with
        | true => exact ⟨hB, le_rfl, hclose, by simp⟩
        | false =>
          obtain rfl := hnested.1 rfl
          refine hB.trans (onward_of_refused ht ?_)
          rw [hclose.take ht]
          rfl

/-- With a step for each token and one more, the reader with a cursor comes to its end on any
tokens, breaches nothing, and gives what taking them one at a time gives. -/
theorem program_eq_parse (d : Delimiters) (tokens : List Token) (extra : Nat) :
    program d (tokens.length + 1 + extra) tokens = (parse d tokens).mapError .refused := by
  have hsteps : (Cursor.mk tokens 0).left < tokens.length + 1 + extra := by
    change tokens.length - 0 < _
    omega
  have hparse : parse d tokens = onward d ⟨tokens, 0⟩ [] [] .statements := rfl
  have htracks := tracks_statements hsteps (iff_of_true rfl rfl) hparse
  unfold Tracks at htracks
  rw [program, StateT.run'_eq]
  split at htracks
  · next body c' hrun =>
    obtain ⟨hB, -, -, hend⟩ := htracks
    rw [hrun, hB, onward_of_none (hend rfl)]
    rfl
  · next fault hrun =>
    rw [hrun, htracks]
    rfl
  · exact htracks.elim

end Guarded
end Stencil
