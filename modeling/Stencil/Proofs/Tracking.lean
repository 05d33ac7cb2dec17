import Stencil.Proofs.Commenting
import Stencil.Proofs.Cursor

/-! A reader with a cursor is followed by what is made of the tokens that are left when they are
taken one at a time. -/
namespace Stencil

namespace Cursor

/-- Where the token before the cursor stands. -/
def last (c : Cursor) : Position :=
  ((c.tokens.take c.index).getLast?.map Token.position).getD .start

/-- How many tokens are left. -/
def left (c : Cursor) : Nat := c.tokens.length - c.index

section

variable (d : Delimiters)

/-- What taking the tokens that are left one at a time gives. -/
def onward (c : Cursor) (levels : List Level) (body : List Node) (mode : Mode) :
    Except (Fault ParseCause) (List Node) :=
  (c.tokens.drop c.index).foldlM (·.take d) ⟨levels, body, mode, c.last⟩ >>= Reading.finish

/-- The token at the cursor begins no statement. -/
def AtClose (c : Cursor) : Prop :=
  ∀ t, c.head? = some t → ∀ r : Reading, r.statement d t = r.close t

end

variable {d : Delimiters} {c : Cursor} {t : Token} {levels levels' : List Level}
  {body body' : List Node} {mode mode' : Mode} {fault : Fault ParseCause}

theorem left_next (h : c.head? = some t) : c.next.left + 1 = c.left := by
  obtain ⟨hlt, -⟩ := List.getElem?_eq_some_iff.1 h
  have hnext : c.next.left = c.tokens.length - (c.index + 1) := rfl
  have hleft : c.left = c.tokens.length - c.index := rfl
  omega

theorem last_next (h : c.head? = some t) : c.next.last = t.position := by
  have htake : c.tokens.take (c.index + 1) = c.tokens.take c.index ++ [t] := by
    rw [List.take_add_one, show c.tokens[c.index]? = some t from h]
    rfl
  simp [last, next, htake]

theorem last_eq_final (h : c.head? = none) : c.last = c.final := by
  have hle : c.tokens.length ≤ c.index := List.getElem?_eq_none_iff.1 h
  rw [last, final, List.take_of_length_le hle]

theorem onward_eq (h : c.head? = some t) : c.onward d levels body mode =
    Reading.take d ⟨levels, body, mode, c.last⟩ t >>= fun r =>
      (c.tokens.drop (c.index + 1)).foldlM (·.take d) r >>= Reading.finish := by
  obtain ⟨hlt, hget⟩ := List.getElem?_eq_some_iff.1 h
  rw [onward, List.drop_eq_getElem_cons hlt, hget, List.foldlM_cons, bind_assoc]

theorem onward_of_take (h : c.head? = some t)
    (htake : Reading.take d ⟨levels, body, mode, c.last⟩ t =
      .ok ⟨levels', body', mode', t.position⟩) :
    c.onward d levels body mode = c.next.onward d levels' body' mode' := by
  rw [onward_eq h, htake, onward, last_next h]
  rfl

theorem onward_of_refused (h : c.head? = some t)
    (htake : Reading.take d ⟨levels, body, mode, c.last⟩ t = .error fault) :
    c.onward d levels body mode = .error fault := by
  rw [onward_eq h, htake]
  rfl

theorem onward_of_none (h : c.head? = none) :
    c.onward d levels body mode = Reading.finish ⟨levels, body, mode, c.last⟩ := by
  have hle : c.tokens.length ≤ c.index := List.getElem?_eq_none_iff.1 h
  rw [onward, List.drop_eq_nil_of_le hle]
  rfl

theorem onward_alike (h : c.head? = some t)
    (htake : Reading.take d ⟨levels, body, mode, c.last⟩ t =
      Reading.take d ⟨levels', body', mode', c.last⟩ t) :
    c.onward d levels body mode = c.onward d levels' body' mode' := by
  rw [onward_eq h, onward_eq h, htake]

theorem onward_alike_of_none (h : c.head? = none)
    (hfinish : Reading.finish ⟨levels, body, mode, c.last⟩ =
      Reading.finish ⟨levels', body', mode', c.last⟩) :
    c.onward d levels body mode = c.onward d levels' body' mode' := by
  rw [onward_of_none h, onward_of_none h, hfinish]

section Kinds

variable {kind : TokenKind} {o : Opening} {p : Position}

theorem isAt_eq_true_iff : c.isAt kind = true ↔ ∃ t, c.head? = some t ∧ t.kind = kind := by
  simp [isAt, Option.any_eq_true]

theorem isAt_eq_false_iff : c.isAt kind = false ↔ ∀ t, c.head? = some t → t.kind ≠ kind := by
  simp [isAt, Option.any_eq_false]

theorem onward_arguments (h : c.isAt .argStart = false) : c.onward d levels body (.arguments o) =
    o.node >>= fun n => c.onward d levels (body ++ [n]) .statements := by
  cases hhead : c.head? with
  | none => simp only [onward_of_none hhead, Reading.finish]; rfl
  | some t =>
    have hkind : t.kind ≠ .argStart := isAt_eq_false_iff.1 h t hhead
    simp only [onward_eq hhead, Reading.take, Reading.argument, if_neg hkind, bind_assoc]
    rfl

theorem onward_named (h : c.isAt .paramStart = false) :
    c.onward d levels body (.named o) = c.onward d levels body (.arguments o) := by
  cases hhead : c.head? with
  | none => exact onward_alike_of_none hhead rfl
  | some t =>
    refine onward_alike hhead ?_
    simp only [Reading.take, if_neg (isAt_eq_false_iff.1 h t hhead)]
    rfl

theorem onward_comment (h : c.isAt .argStart = false) :
    c.onward d levels body (.comment p) = c.onward d levels body (.line p 0 []) := by
  cases hhead : c.head? with
  | none => exact onward_alike_of_none hhead rfl
  | some t =>
    refine onward_alike hhead ?_
    simp only [Reading.take, if_neg (isAt_eq_false_iff.1 h t hhead)]
    rfl

theorem atClose_of_none (h : c.head? = none) : c.AtClose d := by
  intro t ht
  rw [h] at ht
  exact absurd ht (by simp)

theorem AtClose.take (h : c.AtClose d) (ht : c.head? = some t) :
    Reading.take d ⟨levels, body, .statements, c.last⟩ t =
      Reading.close ⟨levels, body, .statements, t.position⟩ t :=
  h t ht _

end Kinds

section Replacing

variable {t' : Token}

theorem head?_replace (h : c.head? = some t) : (c.replace t').head? = some t' := by
  obtain ⟨hlt, -⟩ := List.getElem?_eq_some_iff.1 h
  exact List.getElem?_set_self hlt

@[simp] theorem left_replace : (c.replace t').left = c.left := by
  simp [left, replace]

@[simp] theorem last_replace : (c.replace t').last = c.last := by
  simp [last, replace, List.take_set_of_le]

theorem onward_replace (h : c.head? = some t)
    (htake : Reading.take d ⟨levels, body, mode, c.last⟩ t =
      Reading.take d ⟨levels', body', mode', c.last⟩ t') :
    c.onward d levels body mode = (c.replace t').onward d levels' body' mode' := by
  have hdrop : (c.replace t').tokens.drop (c.index + 1) = c.tokens.drop (c.index + 1) :=
    List.drop_set_of_lt (Nat.lt_succ_self _)
  rw [onward_eq h, onward_eq (head?_replace h), last_replace, htake]
  exact congrArg _ (funext fun r => by rw [← hdrop]; rfl)

end Replacing

end Cursor

namespace Guarded

open Cursor

/-- The reader comes to a result as `P` says, or to the fault `B`, without a breach and with steps
enough. -/
def Tracks {α : Type} (B : Except (Fault ParseCause) (List Node)) (P : α → Cursor → Prop)
    (a : Guarded α) (c : Cursor) : Prop :=
  match a.run c with
  | .ok (x, c') => P x c'
  | .error (.refused fault) => B = .error fault
  | .error _ => False

section Rules

variable {α β : Type} {B : Except (Fault ParseCause) (List Node)} {P : α → Cursor → Prop}
  {Q : β → Cursor → Prop} {a : Guarded α} {f : α → Guarded β} {c : Cursor} {t : Token}
  {kind : TokenKind}

theorem Tracks.bind (h : Tracks B P a c) (hf : ∀ x c', P x c' → Tracks B Q (f x) c') :
    Tracks B Q (a >>= f) c := by
  unfold Tracks at h ⊢
  rw [StateT.run_bind]
  cases hrun : a.run c with
  | ok p =>
    rw [hrun] at h
    exact hf p.1 p.2 h
  | error halt =>
    rw [hrun] at h
    cases halt with
    | refused fault => exact h
    | breached b => exact h
    | exhausted => exact h

theorem Tracks.imp {P' : α → Cursor → Prop} (h : Tracks B P a c) (hP : ∀ x c', P x c' → P' x c') :
    Tracks B P' a c := by
  unfold Tracks at h ⊢
  split at h
  · exact hP _ _ h
  · exact h
  · exact h

theorem tracks_peek?_bind {f : Option Token → Guarded β} :
    Tracks B Q (peek? >>= f) c ↔ Tracks B Q (f c.head?) c := Iff.rfl

theorem tracks_isAt_bind {f : Bool → Guarded β} :
    Tracks B Q (isAt kind >>= f) c ↔ Tracks B Q (f (c.isAt kind)) c := Iff.rfl

theorem tracks_lower_bind {depth : Nat} {f : Nat → Guarded β} :
    Tracks B Q (lower (depth + 1) >>= f) c ↔ Tracks B Q (f depth) c := Iff.rfl

theorem Tracks.bump_bind {f : Token → Guarded β} (h : c.head? = some t)
    (hf : Tracks B Q (f t) c.next) : Tracks B Q (bump >>= f) c := by
  unfold bump
  rw [bind_assoc, tracks_peek?_bind, h]
  exact hf

/-- A token of a kind is taken, or the tokens are refused where there is none. -/
theorem Tracks.expect_bind {f : Token → Guarded β}
    (htaken : ∀ t, c.head? = some t → t.kind = kind → Tracks B Q (f t) c.next)
    (hother : ∀ t, c.head? = some t → t.kind ≠ kind →
      B = .error ⟨.expected kind (some t.kind), t.position⟩)
    (hend : c.head? = none → B = .error ⟨.expected kind none, c.last⟩) :
    Tracks B Q (expect kind >>= f) c := by
  unfold expect
  rw [bind_assoc, tracks_peek?_bind]
  cases h : c.head? with
  | none =>
    have hrefused := hend h
    rw [last_eq_final h] at hrefused
    exact hrefused
  | some t =>
    dsimp only
    split
    · next hkind => exact .bump_bind h (htaken t h hkind)
    · next hkind => exact hother t h hkind

theorem Tracks.expect_bind_of_head {f : Token → Guarded β} (h : c.head? = some t)
    (hkind : t.kind = kind) (hf : Tracks B Q (f t) c.next) : Tracks B Q (expect kind >>= f) c := by
  unfold expect
  rw [bind_assoc, tracks_peek?_bind, h]
  dsimp only
  rw [if_pos hkind]
  exact .bump_bind h hf

theorem Tracks.isAt_ite {b b' : Guarded β}
    (htrue : ∀ t, c.head? = some t → t.kind = kind → Tracks B Q b c)
    (hfalse : c.isAt kind = false → Tracks B Q b' c) :
    Tracks B Q (isAt kind >>= fun found => if found = true then b else b') c := by
  rw [tracks_isAt_bind]
  cases hat : c.isAt kind with
  | true =>
    obtain ⟨t, ht, hkind⟩ := isAt_eq_true_iff.1 hat
    rw [if_pos rfl]
    exact htrue t ht hkind
  | false =>
    rw [if_neg Bool.false_ne_true]
    exact hfalse hat

end Rules

section Readers

variable {B : Except (Fault ParseCause) (List Node)} {d : Delimiters} {c : Cursor} {t : Token}
  {levels : List Level} {body : List Node} {o : Opening}

theorem take_kept {opened : Position} {depth : Nat} {text : Text} {as : Kept} {l : Position}
    (hstart : t.kind ≠ .argStart) (hend : t.kind ≠ .argEnd) :
    Reading.take d ⟨levels, body, .kept opened depth text as, l⟩ t =
      .ok ⟨levels, body, .kept opened depth (text ++ t.text) as, t.position⟩ := by
  unfold Reading.take
  dsimp only
  split
  · next hkind => exact absurd hkind hend
  · next hkind => exact absurd hkind hend
  · next hkind => exact absurd hkind hstart
  · rfl

/-- What is read on behind a group that is kept as text. -/
def afterKept (d : Delimiters) (levels : List Level) (body : List Node) (opened : Position)
    (text : Text) (as : Kept) (c : Cursor) : Except (Fault ParseCause) (List Node) :=
  let r := Reading.keep ⟨levels, body, .statements, c.last⟩ opened text as
  c.onward d r.levels r.body r.mode

theorem tracks_group {opened : Position} {as : Kept} {steps depth : Nat} {text : Text}
    (hsteps : c.left < steps) (hB : B = c.onward d levels body (.kept opened depth text as)) :
    Tracks B (fun text' c' => B = afterKept d levels body opened text' as c' ∧ c'.left < c.left)
      (group opened steps (depth + 1) text) c := by
  induction steps generalizing c depth text with
  | zero => exact absurd hsteps (Nat.not_lt_zero _)
  | succ steps ih =>
    rw [group, tracks_peek?_bind]
    cases h : c.head? with
    | none =>
      rw [onward_of_none h] at hB
      exact hB
    | some t =>
      have hleft : c.next.left + 1 = c.left := left_next h
      have hgoes : ∀ depth', Reading.take d ⟨levels, body, .kept opened depth text as, c.last⟩ t =
          .ok ⟨levels, body, .kept opened depth' (text ++ t.text) as, t.position⟩ → Tracks B
          (fun text' c' => B = afterKept d levels body opened text' as c' ∧ c'.left < c.left)
          (group opened steps (depth' + 1) (text ++ t.text)) c.next := by
        intro depth' htake
        have hrest := ih (c := c.next) (by omega) (hB.trans (onward_of_take h htake))
        exact hrest.imp fun text' c' hafter => ⟨hafter.1, by omega⟩
      dsimp only
      split
      · next hkind =>
        refine Tracks.bump_bind h (hgoes (depth + 1) ?_)
        simp only [Reading.take, hkind]
        rfl
      · next hkind =>
        rw [tracks_lower_bind]
        refine Tracks.bump_bind h ?_
        cases depth with
        | zero =>
          refine ⟨hB.trans (onward_of_take h ?_), by omega⟩
          simp only [Reading.take, hkind]
          cases as <;> rfl
        | succ depth =>
          refine hgoes depth ?_
          simp only [Reading.take, hkind]
          rfl
      · next hstart hend => exact .bump_bind h (hgoes depth (take_kept hstart hend))

theorem Tracks.line_succ {Q : Text → Cursor → Prop} {steps depth m : Nat} {text : Text}
    (h : c.head? = some t) (hafter : lineAfter? depth ⟨t.kind, t.text⟩ = some m)
    (hrest : Tracks B Q (line steps m (text ++ t.text)) c.next) :
    Tracks B Q (line (steps + 1) depth text) c := by
  have hbump : Tracks B Q (bump >>= fun t => line steps m (text ++ t.text)) c := .bump_bind h hrest
  obtain ⟨kind, s, q⟩ := t
  rw [line, tracks_peek?_bind, h]
  cases kind <;> cases depth <;> simp only [lineAfter?, Nat.add_one_ne_zero, if_true, if_false,
    false_and, true_and, Option.ite_none_left_eq_some, Option.some.injEq, reduceCtorEq] at hafter
  case raw.zero =>
    obtain ⟨hs, rfl⟩ := hafter
    dsimp only
    rw [if_pos rfl, Text.cutAt?_eq_none_iff.2 hs]
    exact hbump
  all_goals
    subst hafter
    exact hbump

theorem exists_of_lineAfter?_eq_none {depth : Nat} {l : Lexeme} (h : lineAfter? depth l = none) :
    depth = 0 ∧ (l.kind = .argEnd ∨ l.kind = .paramEnd ∨ l.kind = .paramSep ∨
      l.kind = .raw ∧ '\n' ∈ l.text) := by
  obtain ⟨kind, s⟩ := l
  cases kind <;> simp_all [lineAfter?]

theorem tracks_line {p : Position} {steps depth : Nat} {text : Text} (hsteps : c.left < steps)
    (hB : B = c.onward d levels body (.line p depth text)) :
    Tracks B (fun text' c' => B = c'.onward d levels (body ++ [Reading.commentNode text' p])
      .statements ∧ c'.left ≤ c.left) (line steps depth text) c := by
  induction steps generalizing c depth text with
  | zero => exact absurd hsteps (Nat.not_lt_zero _)
  | succ steps ih =>
    cases h : c.head? with
    | none =>
      rw [line, tracks_peek?_bind, h]
      exact ⟨hB.trans (onward_alike_of_none h rfl), le_rfl⟩
    | some t =>
      cases hafter : lineAfter? depth ⟨t.kind, t.text⟩ with
      | some m =>
        have hleft : c.next.left + 1 = c.left := left_next h
        have hrest := ih (c := c.next) (by omega)
          (hB.trans (onward_of_take h (Reading.take_line hafter)))
        exact .line_succ h hafter (hrest.imp fun text' c' hc' => ⟨hc'.1, by omega⟩)
      | none =>
        obtain ⟨rfl, hends⟩ := exists_of_lineAfter?_eq_none hafter
        obtain ⟨kind, s, q⟩ := t
        rw [line, tracks_peek?_bind, h]
        rcases hends with rfl | rfl | rfl | ⟨rfl, hs⟩
        · exact ⟨hB.trans (onward_alike h rfl), le_rfl⟩
        · exact ⟨hB.trans (onward_alike h rfl), le_rfl⟩
        · exact ⟨hB.trans (onward_alike h rfl), le_rfl⟩
        · cases hcut : Text.cutAt? '\n' s with
          | none => exact absurd hs (Text.cutAt?_eq_none_iff.1 hcut)
          | some cut =>
            obtain ⟨before, after⟩ := cut
            dsimp only
            rw [if_pos rfl, hcut]
            refine ⟨hB.trans (onward_replace h ?_), left_replace.le⟩
            simp only [Reading.take, Reading.commentLine, hcut]
            rfl

end Readers

end Guarded
end Stencil
