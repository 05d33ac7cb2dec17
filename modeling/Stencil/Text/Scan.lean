import Stencil.Text

/-! Cutting a text in two at the place where a scan stops. -/
namespace Stencil.Text

/-- Cuts `t` where the scan stops. At a place that is not inside the last step, `step` looks at the
text from there on: `none` stops, `some (n, s)` takes the next character and `n` more and goes on
in state `s`. The number is how many characters the last step still takes. -/
def scan {σ : Type} (step : σ → Text → Option (Nat × σ)) : Nat → σ → Text → Text × Text
  | _, _, [] => ([], [])
  | n + 1, s, c :: r =>
    let (taken, rest) := scan step n s r
    (c :: taken, rest)
  | 0, s, c :: r =>
    match step s (c :: r) with
    | none => ([], c :: r)
    | some (n, s') =>
      let (taken, rest) := scan step n s' r
      (c :: taken, rest)

/-- Cuts `t` at the first place where `stop` holds of the text from there on. -/
def cutWhere (stop : Text → Bool) : Text → Text × Text
  | [] => ([], [])
  | c :: r =>
    if stop (c :: r) then ([], c :: r)
    else
      let (taken, rest) := cutWhere stop r
      (c :: taken, rest)

@[simp] theorem scan_append {σ : Type} (step : σ → Text → Option (Nat × σ)) (n : Nat) (s : σ)
    (t : Text) : (scan step n s t).1 ++ (scan step n s t).2 = t := by
  fun_induction scan step n s t <;> simp_all

@[simp] theorem cutWhere_append (stop : Text → Bool) (t : Text) :
    (cutWhere stop t).1 ++ (cutWhere stop t).2 = t := by
  fun_induction cutWhere stop t <;> simp_all

/-- A cut stands where `stop` holds, or at the end of the text. -/
theorem cutWhere_stop (stop : Text → Bool) (t : Text) :
    (cutWhere stop t).2 = [] ∨ stop (cutWhere stop t).2 = true := by
  fun_induction cutWhere stop t <;> simp_all

/-- A cut that takes nothing from a text that is not empty stands where `stop` holds. -/
theorem stop_of_cutWhere_eq_nil {stop : Text → Bool} {t : Text} (h : t ≠ [])
    (hc : (cutWhere stop t).1 = []) : stop t = true := by
  match t with
  | [] => exact absurd rfl h
  | c :: r =>
    by_cases hs : stop (c :: r) = true
    · exact hs
    · simp [cutWhere, hs] at hc

theorem length_le_of_append {a b t : Text} (h : a ++ b = t) : b.length ≤ t.length := by
  subst h; simp

theorem length_lt_of_append {a b t : Text} (h : a ++ b = t) (ha : a ≠ []) :
    b.length < t.length := by
  subst h
  have := List.length_pos_iff.2 ha
  simp only [List.length_append]
  omega

theorem scan_length_append {σ : Type} (step : σ → Text → Option (Nat × σ)) (s : σ) (u r : Text) :
    scan step u.length s (u ++ r) = (u ++ (scan step 0 s r).1, (scan step 0 s r).2) := by
  induction u with
  | nil => rfl
  | cons c u ih => rw [List.cons_append, List.length_cons, scan, ih]; rfl

/-- A scan goes on behind what a step of it takes. -/
theorem scan_of_step {σ : Type} {step : σ → Text → Option (Nat × σ)} {s s' : σ} {taken r : Text}
    (htaken : taken ≠ []) (h : step s (taken ++ r) = some (taken.length - 1, s')) :
    scan step 0 s (taken ++ r) = (taken ++ (scan step 0 s' r).1, (scan step 0 s' r).2) := by
  obtain ⟨c, u, rfl⟩ := List.exists_cons_of_ne_nil htaken
  have hcons : step s (c :: (u ++ r)) = some (u.length, s') := h
  simp only [List.cons_append, scan, hcons, scan_length_append]

/-- A scan whose first step takes something leaves less than it was given. -/
theorem scan_fst_ne_nil {σ : Type} {step : σ → Text → Option (Nat × σ)} {s : σ} {c : Char}
    {r : Text} (h : step s (c :: r) ≠ none) : (scan step 0 s (c :: r)).1 ≠ [] := by
  unfold scan
  split
  · contradiction
  · simp

end Stencil.Text
