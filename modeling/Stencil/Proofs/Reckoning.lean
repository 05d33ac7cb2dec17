import Stencil.Proofs.Reckoner

/-! Reckoning while words are read gives what reading them and reckoning then gives. -/
namespace Stencil
namespace Reckoner

open Stencil.Expr

section Agreement

variable {α β γ δ : Type}

/-- From cursor `i` on, the action comes to a result that `R` relates to that of `r`, or to the same
cause. -/
def Agrees (R : α → β → Nat → Prop) (r : Except ExprCause α) (a : Reckoning β) (i : Nat) : Prop :=
  match r with
  | .ok x => ∃ y k, a.run i = pure (y, k) ∧ R x y k
  | .error cause => a.run i = throw cause

variable {R : α → β → Nat → Prop} {S : γ → δ → Nat → Prop} {r : Except ExprCause α}
  {a b : Reckoning β} {i k : Nat}

theorem agrees_pure {x : α} {y : β} (h : R x y i) : Agrees R (pure x) (pure y) i :=
  ⟨y, i, rfl, h⟩

@[simp] theorem run_throw (cause : ExprCause) : (throw cause : Reckoning β).run i = throw cause :=
  rfl

theorem agrees_throw (cause : ExprCause) : Agrees R (.error cause) (throw cause) i := rfl

theorem Agrees.of_run (h : Agrees R r b k) (heq : a.run i = b.run k) : Agrees R r a i := by
  unfold Agrees at h ⊢
  rwa [heq]

theorem Agrees.bind {f : α → Except ExprCause γ} {g : β → Reckoning δ} (h : Agrees R r a i)
    (hnext : ∀ x y k, R x y k → Agrees S (f x) (g y) k) : Agrees S (r >>= f) (a >>= g) i := by
  cases r with
  | error cause =>
    have hrun : (a >>= g).run i = throw cause := by
      rw [StateT.run_bind, show a.run i = throw cause from h]
      rfl
    exact hrun
  | ok x =>
    obtain ⟨y, k, hrun, hR⟩ := h
    refine (hnext x y k hR).of_run ?_
    rw [StateT.run_bind, hrun]
    rfl

theorem Agrees.last {f : α → Except ExprCause γ} {T : γ → β → Nat → Prop}
    (h : Agrees R r a i) (hnext : ∀ x y k, R x y k → Agrees T (f x) (pure y) k) :
    Agrees T (r >>= f) a i := by
  have hbind := h.bind hnext
  rwa [bind_pure] at hbind

end Agreement

variable {ws rs : List Word} {α : Type} {R : α → Value → Nat → Prop} {r : Except ExprCause α}
  {i k steps : Nat} {marks : List Mark}

/-- The value is that of the expression, and the cursor is before the words left. -/
def Reads (ws : List Word) {Left : List Word → Prop} (x : Expr × { rest // Left rest }) (v : Value)
    (i : Nat) : Prop :=
  v = x.1.value ∧ ws.drop i = x.2.1

theorem getElem?_of_drop {w : Word} (h : ws.drop i = w :: rs) :
    ws[i]? = some w ∧ ws.drop (i + 1) = rs := by
  constructor
  · rw [← List.head?_drop, h]
    rfl
  · rw [← List.tail_drop, h]
    rfl

theorem getElem?_of_drop_nil (h : ws.drop i = []) : ws[i]? = none := by
  rw [← List.head?_drop, h]
  rfl

theorem agrees_operator {m : Mark} {t : Text} {g : Option Mark → Reckoning Value}
    (h : ws.drop i = ⟨.mark m, t⟩ :: rs) (hm : m ∈ marks)
    (hnext : Agrees R r (g (some m)) (i + 1)) : Agrees R r (operator? ws marks >>= g) i := by
  refine hnext.of_run ?_
  obtain ⟨hget, -⟩ := getElem?_of_drop h
  simp [operator?, hget, hm]

theorem agrees_no_operator {g : Option Mark → Reckoning Value}
    (h : ∀ m t rs, ws.drop i = ⟨.mark m, t⟩ :: rs → m ∉ marks)
    (hnext : Agrees R r (g none) i) : Agrees R r (operator? ws marks >>= g) i := by
  refine hnext.of_run ?_
  match hrs : ws.drop i with
  | [] => simp [operator?, getElem?_of_drop_nil hrs]
  | ⟨.literal v, t⟩ :: rs => simp [operator?, (getElem?_of_drop hrs).1]
  | ⟨.name n, t⟩ :: rs => simp [operator?, (getElem?_of_drop hrs).1]
  | ⟨.mark m, t⟩ :: rs => simp [operator?, (getElem?_of_drop hrs).1, h m t rs hrs]

theorem agrees_expect (m : Mark) (h : ws.drop i = rs) :
    Agrees (fun x _ k => ws.drop k = x.1) (Expr.expect m rs) (expect ws m) i := by
  match rs with
  | [] => simp [Agrees, Expr.expect, expect, getElem?_of_drop_nil h]
  | ⟨.literal v, t⟩ :: rs => simp [Agrees, Expr.expect, expect, (getElem?_of_drop h).1]
  | ⟨.name n, t⟩ :: rs => simp [Agrees, Expr.expect, expect, (getElem?_of_drop h).1]
  | ⟨.mark m', t⟩ :: rs =>
    obtain ⟨hget, hdrop⟩ := getElem?_of_drop h
    by_cases hm : m' = m
    · subst hm
      simp only [Expr.expect, if_pos]
      exact ⟨(), i + 1, by simp [expect, hget], hdrop⟩
    · simp [Agrees, Expr.expect, expect, hget, hm]

section Chains

variable {n bound : Nat} {apply : Mark → Value → Value → Value} {operand : Reckoning Value}

/-- With at most `bound` words left, the action reads what is read at a strength. -/
def ReadsStrength (ws : List Word) (bound n : Nat) (operand : Reckoning Value) : Prop :=
  ∀ i rs, ws.drop i = rs → rs.length ≤ bound →
    Agrees (Reads ws) (readStrength n rs) operand i

theorem agrees_chainFrom (hmarks : ∀ m, m ∈ marks ↔ (binaryOf? n m).isSome)
    (happly : ∀ m op, binaryOf? n m = some op → apply m = op.apply)
    (hoperand : ReadsStrength ws bound n operand) {left : Expr} (h : ws.drop i = rs)
    (hbound : rs.length ≤ bound) (hsteps : rs.length < steps) :
    Agrees (Reads ws) (readChain n left rs) (chainFrom ws marks apply operand steps left.value)
      i := by
  induction steps generalizing i rs left with
  | zero => exact absurd hsteps (Nat.not_lt_zero _)
  | succ steps ih =>
    rw [chainFrom]
    by_cases hmark : ∃ m t after, rs = ⟨.mark m, t⟩ :: after
    · obtain ⟨m, t, after, rfl⟩ := hmark
      obtain ⟨-, hdrop⟩ := getElem?_of_drop h
      simp only [List.length_cons] at hbound hsteps
      rw [readChain]
      cases hop : binaryOf? n m with
      | some op =>
        refine agrees_operator h ((hmarks m).2 (by simp [hop])) ?_
        refine (hoperand _ after hdrop (by omega)).bind ?_
        rintro ⟨right, between, hlt⟩ v k ⟨rfl, hk⟩
        rw [happly m op hop]
        refine (ih hk ?_ ?_).last fun _ _ _ hreads => agrees_pure hreads
        · exact Nat.le_trans (Nat.le_of_lt hlt) (Nat.le_of_succ_le hbound)
        · exact Nat.lt_trans hlt (Nat.lt_of_succ_lt_succ hsteps)
      | none =>
        refine agrees_no_operator (fun m' t' after' hrs => ?_) (agrees_pure ⟨rfl, h⟩)
        obtain ⟨⟨rfl, -⟩, -⟩ : (m = m' ∧ t = t') ∧ after = after' := by simpa [h] using hrs
        simp [hmarks, hop]
    · rw [readChain]
      · refine agrees_no_operator (fun m t after hrs => ?_) (agrees_pure ⟨rfl, h⟩)
        exact absurd ⟨m, t, after, h.symm.trans hrs⟩ hmark
      · exact fun m t after hrs => hmark ⟨m, t, after, hrs⟩

theorem ReadsStrength.chain (hmarks : ∀ m, m ∈ marks ↔ (binaryOf? n m).isSome)
    (happly : ∀ m op, binaryOf? n m = some op → apply m = op.apply)
    (hoperand : ReadsStrength ws bound n operand) (hsteps : bound < steps) :
    ReadsStrength ws bound (n + 1) (chain ws marks apply steps operand) := by
  intro i rs h hbound
  rw [readStrength]
  refine (hoperand i rs h hbound).bind ?_
  rintro ⟨left, between, hlt⟩ v k ⟨rfl, hk⟩
  refine (agrees_chainFrom hmarks happly hoperand hk ?_ ?_).last fun _ _ _ hreads =>
    agrees_pure hreads
  · exact Nat.le_trans (Nat.le_of_lt hlt) hbound
  · exact Nat.lt_of_lt_of_le hlt (Nat.le_trans hbound (Nat.le_of_lt hsteps))

theorem ReadsStrength.or (h : ReadsStrength ws bound 0 operand) (hsteps : bound < steps) :
    ReadsStrength ws bound strengths (or ws steps operand) := by
  refine .chain ?_ ?_ (.chain ?_ ?_ (.chain ?_ ?_ (.chain ?_ ?_ (.chain ?_ ?_ (.chain ?_ ?_
    h hsteps) hsteps) hsteps) hsteps) hsteps) hsteps
  case refine_1 | refine_3 | refine_5 | refine_7 | refine_9 | refine_11 =>
    intro m
    cases m <;> decide
  all_goals
    intro m op hop
    cases m <;> cases hop <;> funext a b <;> cases a <;> cases b <;> rfl

end Chains

section Steps

-- What is behind the first word is reckoned as it is read.
variable (hternary : ∀ i rs, ws.drop i = rs → 2 * rs.length + 1 < steps →
    Agrees (Reads ws) (readChoice rs) (ternary ws steps) i)
  (hunary : ∀ i rs, ws.drop i = rs → 2 * rs.length < steps →
    Agrees (Reads ws) (readUnary rs) (unary ws steps) i)

include hternary in
theorem agrees_primary {t : Text} (h : ws.drop i = ⟨.mark .opening, t⟩ :: rs)
    (hsteps : 2 * rs.length + 1 < steps) :
    Agrees (Reads ws) (readUnary (⟨.mark .opening, t⟩ :: rs)) (primary ws (ternary ws steps))
      i := by
  obtain ⟨hget, hdrop⟩ := getElem?_of_drop h
  have hinner : (primary ws (ternary ws steps)).run i = (do
      let v ← ternary ws steps
      expect ws .closing
      return v : Reckoning Value).run (i + 1) := by
    simp [primary, hget]
  rw [readUnary]
  refine Agrees.of_run ?_ hinner
  refine (hternary _ rs hdrop hsteps).bind ?_
  rintro ⟨e, rest, hlt⟩ v k ⟨rfl, hk⟩
  refine (agrees_expect .closing hk).bind ?_
  rintro ⟨rest', h'⟩ - k' hk'
  exact agrees_pure ⟨rfl, hk'⟩

include hternary hunary

theorem agrees_unary (h : ws.drop i = rs) (hsteps : 2 * rs.length < steps + 1) :
    Agrees (Reads ws) (readUnary rs) (unary ws (steps + 1)) i := by
  rw [unary]
  match rs with
  | [] =>
    rw [readUnary]
    refine agrees_no_operator (fun m t rs hrs => by simp [h] at hrs) ?_
    simp [Agrees, primary, getElem?_of_drop_nil h]
  | ⟨.literal v, t⟩ :: rs =>
    obtain ⟨hget, hdrop⟩ := getElem?_of_drop h
    rw [readUnary]
    refine agrees_no_operator (fun m t rs hrs => by simp [h] at hrs) ?_
    exact ⟨v, i + 1, by simp [primary, hget], rfl, hdrop⟩
  | ⟨.name n, t⟩ :: rs =>
    obtain ⟨hget, -⟩ := getElem?_of_drop h
    rw [readUnary]
    refine agrees_no_operator (fun m t rs hrs => by simp [h] at hrs) ?_
    simp [Agrees, primary, hget]
  | ⟨.mark m, t⟩ :: rs =>
    obtain ⟨hget, hdrop⟩ := getElem?_of_drop h
    simp only [List.length_cons] at hsteps
    have hmark : ∀ m' t' rs', ws.drop i = ⟨.mark m', t'⟩ :: rs' → m' = m := by
      intro m' t' rs' hrs
      simp_all
    by_cases hopening : m = .opening
    · subst hopening
      refine agrees_no_operator (fun m' t' rs' hrs => ?_) ?_
      · rw [hmark m' t' rs' hrs]
        decide
      · exact agrees_primary hternary h (by omega)
    rw [readUnary]
    · cases hop : unaryOf? m with
      | some op =>
        have hinner := hunary _ rs hdrop (by omega)
        cases m <;> cases hop
        all_goals
          refine agrees_operator h (by decide) (hinner.bind ?_)
          rintro ⟨e, rest, hlt⟩ v k ⟨rfl, hk⟩
          exact agrees_pure ⟨rfl, hk⟩
      | none =>
        have hsigns : m ∉ [.minus, .plus, .not] := by cases m <;> simp [unaryOf?] at hop ⊢
        refine agrees_no_operator (fun m' t' rs' hrs => hmark m' t' rs' hrs ▸ hsigns) ?_
        have hrun : (primary ws (ternary ws steps)).run i = throw (.unexpected t) := by
          cases m <;> simp [primary, hget] at hopening ⊢
        exact hrun
    · exact hopening

theorem agrees_ternary (h : ws.drop i = rs) (hsteps : 2 * rs.length + 1 < steps + 1) :
    Agrees (Reads ws) (readChoice rs) (ternary ws (steps + 1)) i := by
  have hoperand : ReadsStrength ws rs.length 0 (unary ws steps) := by
    intro i' rs' h' hbound
    rw [readStrength]
    exact hunary i' rs' h' (by omega)
  rw [readChoice, ternary]
  refine (hoperand.or (by omega) i rs h (Nat.le_refl _)).bind ?_
  rintro ⟨condition, rest, hlt⟩ v k ⟨rfl, hk⟩
  dsimp only
  split
  · next after hlt =>
    obtain ⟨-, hafter⟩ := getElem?_of_drop hk
    have hlen : after.length + 1 < rs.length := hlt
    refine agrees_operator hk List.mem_cons_self ?_
    refine (hternary _ after hafter (by omega)).bind ?_
    rintro ⟨yes, rest₁, h₁⟩ v k ⟨rfl, hk⟩
    refine (agrees_expect .colon hk).bind ?_
    rintro ⟨rest₂, h₂⟩ - k hk
    have hlen₂ : rest₂.length < after.length := Nat.lt_trans h₂ h₁
    refine (hternary _ rest₂ hk (by omega)).bind ?_
    rintro ⟨no, rest₃, h₃⟩ v k ⟨rfl, hk⟩
    exact agrees_pure ⟨rfl, hk⟩
  · next hnot =>
    refine agrees_no_operator (fun m t after hrest => ?_) (agrees_pure ⟨rfl, hk⟩)
    have hrest : rest = ⟨.mark m, t⟩ :: after := hk.symm.trans hrest
    rw [List.mem_singleton]
    rintro rfl
    exact hnot t after (hrest ▸ hlt) hrest (proof_irrel_heq _ _)

end Steps

/-- What is read is reckoned, where there are two steps for each word. -/
theorem agrees_of_lt (ws : List Word) (steps : Nat) :
    (∀ i rs, ws.drop i = rs → 2 * rs.length + 1 < steps →
      Agrees (Reads ws) (readChoice rs) (ternary ws steps) i) ∧
    ∀ i rs, ws.drop i = rs → 2 * rs.length < steps →
      Agrees (Reads ws) (readUnary rs) (unary ws steps) i := by
  induction steps with
  | zero => exact ⟨fun _ _ _ => nofun, fun _ _ _ => nofun⟩
  | succ steps ih =>
    exact ⟨fun _ _ => agrees_ternary ih.1 ih.2, fun _ _ => agrees_unary ih.1 ih.2⟩

theorem agrees_all (hsteps : 2 * ws.length + 1 < steps) :
    Agrees (fun e v _ => v = e.value) (ofWords ws) (all ws steps) 0 := by
  refine ((agrees_of_lt ws steps).1 0 ws rfl hsteps).bind ?_
  rintro ⟨e, rest, hlt⟩ v k ⟨rfl, hk⟩
  cases rest with
  | nil => exact ⟨e.value, k, by simp [getElem?_of_drop_nil hk], rfl⟩
  | cons w rest => simp [Agrees, (getElem?_of_drop hk).1]

/-- Reckoning while reading gives what reading and then reckoning gives. -/
theorem run_eq_calculate {source : Text} (h : words source = .ok ws)
    (hsteps : 2 * ws.length + 1 < steps) : run steps source = some (calculate source) := by
  have hrun : run steps source = Prod.fst <$> (all ws steps).run 0 := by
    rw [run, h]
    rfl
  have hcalculate : calculate source = ofWords ws >>= fun e => pure e.value := by
    rw [calculate, h]
    rfl
  have hagrees := agrees_all hsteps
  rw [hrun, hcalculate]
  cases hwords : ofWords ws with
  | error cause =>
    rw [hwords] at hagrees
    rw [show (all ws steps).run 0 = throw cause from hagrees]
    rfl
  | ok e =>
    rw [hwords] at hagrees
    obtain ⟨v, k, hall, rfl⟩ := hagrees
    rw [hall]
    rfl

end Reckoner
end Stencil
