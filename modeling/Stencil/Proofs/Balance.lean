import Stencil.Proofs.Parsing

/-! Where an argument ends: at the mark that closes it when the marks between pair up. This is the
end that the count of open arguments comes to in a text, and among the tokens of one. -/
namespace Stencil

namespace Delimiters

variable (d : Delimiters)

/-- No mark of an argument begins a text. -/
def NoMark (t : Text) : Prop := d.argStart.startsAt t = false ∧ d.argEnd.startsAt t = false

/-- A mark that closes an argument begins a text, and none that opens one. -/
def ClosesAt (t : Text) : Prop := d.argStart.startsAt t = false ∧ d.argEnd.startsAt t = true

/-- The marks of arguments pair up, read from the left in front of `rest`; an escape is passed as a
whole. -/
inductive Balanced : Text → Text → Prop where
  | nil (rest : Text) : Balanced rest []
  | group {rest inner outer : Text} (hopens : d.argStart ≠ [])
      (hinner : Balanced (d.argEnd ++ (outer ++ rest)) inner)
      (hcloses : d.ClosesAt (d.argEnd ++ (outer ++ rest))) (houter : Balanced rest outer) :
    Balanced rest (d.argStart ++ (inner ++ (d.argEnd ++ outer)))
  | escape {rest t : Text} (hnone : d.NoMark (d.escape ++ (t ++ rest))) (hescape : d.escape ≠ [])
      (ht : Balanced rest t) : Balanced rest (d.escape ++ t)
  | char {rest t : Text} {c : Char} (hnone : d.NoMark (c :: (t ++ rest)))
      (hescape : d.escape.startsAt (c :: (t ++ rest)) = false) (ht : Balanced rest t) :
    Balanced rest (c :: t)

/-- One step of the search for the end of `depth` open arguments. -/
def argumentStep (depth : Nat) (r : Text) : Option (Nat × Nat) :=
  if d.argStart.startsAt r then some (d.argStart.length - 1, depth + 1)
  else if d.argEnd.startsAt r then
    match depth with
    | 0 => none
    | n + 1 => some (d.argEnd.length - 1, n)
  else if d.escape.startsAt r then some (d.escape.length - 1, depth)
  else some (0, depth)

/-- Searches the end of an argument in which `depth` arguments are open. -/
def argumentFrom (depth : Nat) (t : Text) : Text × Text := t.scan d.argumentStep 0 depth

section Search

variable {d : Delimiters} {depth : Nat} {c : Char} {r t rest inner after : Text}

theorem cutArgument_eq (t : Text) : d.cutArgument t = d.argumentFrom 0 t := rfl

theorem argumentFrom_append (depth : Nat) (t : Text) :
    (d.argumentFrom depth t).1 ++ (d.argumentFrom depth t).2 = t := Text.scan_append _ _ _ _

theorem ClosesAt.ne_nil (h : d.ClosesAt t) : d.argEnd ≠ [] := (Text.startsAt_iff.1 h.2).1

theorem argumentFrom_argStart (hopens : d.argStart ≠ []) (depth : Nat) (r : Text) :
    d.argumentFrom depth (d.argStart ++ r) =
      (d.argStart ++ (d.argumentFrom (depth + 1) r).1, (d.argumentFrom (depth + 1) r).2) :=
  Text.scan_of_step hopens (by simp [argumentStep, Text.startsAt_iff, hopens])

theorem argumentFrom_argEnd (h : d.ClosesAt (d.argEnd ++ r)) (depth : Nat) :
    d.argumentFrom (depth + 1) (d.argEnd ++ r) =
      (d.argEnd ++ (d.argumentFrom depth r).1, (d.argumentFrom depth r).2) :=
  Text.scan_of_step h.ne_nil (by simp [argumentStep, h.1, h.2])

theorem argumentFrom_zero (h : d.ClosesAt t) : d.argumentFrom 0 t = ([], t) := by
  cases t with
  | nil => exact absurd (Text.startsAt_iff.1 h.2).2 (by simpa using h.ne_nil)
  | cons c r =>
    have hstep : d.argumentStep 0 (c :: r) = none := by simp [argumentStep, h.1, h.2]
    rw [argumentFrom, Text.scan, hstep]

theorem argumentFrom_escape (h : d.NoMark (d.escape ++ r)) (hescape : d.escape ≠ [])
    (depth : Nat) : d.argumentFrom depth (d.escape ++ r) =
      (d.escape ++ (d.argumentFrom depth r).1, (d.argumentFrom depth r).2) :=
  Text.scan_of_step hescape (by simp [argumentStep, h.1, h.2, Text.startsAt_iff, hescape])

theorem argumentFrom_cons (h : d.NoMark (c :: r)) (hescape : d.escape.startsAt (c :: r) = false)
    (depth : Nat) : d.argumentFrom depth (c :: r) =
      (c :: (d.argumentFrom depth r).1, (d.argumentFrom depth r).2) :=
  Text.scan_of_step (List.cons_ne_nil c []) (by simp [argumentStep, h.1, h.2, hescape])

/-- The search passes a text in which the marks pair up. -/
theorem Balanced.argumentFrom (h : d.Balanced rest t) (depth : Nat) :
    d.argumentFrom depth (t ++ rest) =
      (t ++ (d.argumentFrom depth rest).1, (d.argumentFrom depth rest).2) := by
  induction h generalizing depth with
  | nil => rfl
  | @group rest inner outer hopens _ hcloses _ ihinner ihouter =>
    simp only [List.append_assoc]
    rw [argumentFrom_argStart hopens, ihinner, argumentFrom_argEnd hcloses, ihouter]
  | escape hnone hescape _ ih =>
    rw [List.append_assoc, argumentFrom_escape hnone hescape, ih, List.append_assoc]
  | char hnone hescape _ ih =>
    rw [List.cons_append, argumentFrom_cons hnone hescape, ih, List.cons_append]

/-- A text closes `depth` arguments, the marks pairing up between the ends and after the last. -/
def Closes (d : Delimiters) (rest : Text) : Nat → Text → Prop
  | 0, t => d.Balanced rest t
  | depth + 1, t => ∃ inner outer, t = inner ++ (d.argEnd ++ outer) ∧
      d.Balanced (d.argEnd ++ (outer ++ rest)) inner ∧ d.ClosesAt (d.argEnd ++ (outer ++ rest)) ∧
      Closes d rest depth outer

theorem Closes.append {front : Text} (h : d.Closes rest depth t)
    (hfront : ∀ {after u}, u ++ after = t ++ rest → d.Balanced after u →
      d.Balanced after (front ++ u)) : d.Closes rest depth (front ++ t) := by
  cases depth with
  | zero => exact hfront rfl h
  | succ depth =>
    obtain ⟨inner, outer, rfl, hinner, hcloses, houter⟩ := h
    exact ⟨front ++ inner, outer, by simp, hfront (by simp) hinner, hcloses, houter⟩

theorem Closes.argStart (hopens : d.argStart ≠ []) (h : d.Closes rest (depth + 1) t) :
    d.Closes rest depth (d.argStart ++ t) := by
  obtain ⟨inner, outer, rfl, hinner, hcloses, houter⟩ := h
  have hgroup : ∀ {after u}, u ++ after = outer ++ rest → d.Balanced after u →
      d.Balanced after (d.argStart ++ (inner ++ d.argEnd) ++ u) := by
    intro after u heq hu
    rw [← heq] at hinner hcloses
    simpa using Balanced.group hopens hinner hcloses hu
  simpa using houter.append hgroup

theorem Closes.escape (hnone : d.NoMark (d.escape ++ (t ++ rest))) (hescape : d.escape ≠ [])
    (h : d.Closes rest depth t) : d.Closes rest depth (d.escape ++ t) :=
  h.append fun heq hu => .escape (heq ▸ hnone) hescape hu

theorem Closes.char (hnone : d.NoMark (c :: (t ++ rest)))
    (hescape : d.escape.startsAt (c :: (t ++ rest)) = false) (h : d.Closes rest depth t) :
    d.Closes rest depth (c :: t) := by
  have hchar : ∀ {after u}, u ++ after = t ++ rest → d.Balanced after u →
      d.Balanced after ([c] ++ u) := fun heq hu => .char (heq ▸ hnone) (heq ▸ hescape) hu
  exact h.append hchar

theorem closes_of_argumentFrom (h : d.argEnd.startsAt (d.argumentFrom depth t).2 = true) :
    d.ClosesAt (d.argumentFrom depth t).2 ∧
      d.Closes (d.argumentFrom depth t).2 depth (d.argumentFrom depth t).1 := by
  induction hlength : t.length using Nat.strongRecOn generalizing t depth with
  | ind n ih =>
    have shorter : ∀ {taken r : Text}, t = taken ++ r → taken ≠ [] → r.length < n :=
      fun ht htaken => hlength ▸ Text.length_lt_of_append ht.symm htaken
    by_cases hstart : d.argStart.startsAt t = true
    · obtain ⟨hopens, r, rfl⟩ := Text.startsAt_iff.1 hstart
      rw [argumentFrom_argStart hopens] at h ⊢
      obtain ⟨hend, hclosed⟩ := ih _ (shorter rfl hopens) h rfl
      exact ⟨hend, hclosed.argStart hopens⟩
    rw [Bool.not_eq_true] at hstart
    by_cases hmark : d.argEnd.startsAt t = true
    · have hcloses : d.ClosesAt t := ⟨hstart, hmark⟩
      cases depth with
      | zero =>
        rw [argumentFrom_zero hcloses]
        exact ⟨hcloses, .nil t⟩
      | succ depth =>
        obtain ⟨-, r, rfl⟩ := Text.startsAt_iff.1 hmark
        rw [argumentFrom_argEnd hcloses] at h ⊢
        obtain ⟨hend, hclosed⟩ := ih _ (shorter rfl hcloses.ne_nil) h rfl
        rw [← argumentFrom_append depth r] at hcloses
        exact ⟨hend, [], _, rfl, .nil _, hcloses, hclosed⟩
    rw [Bool.not_eq_true] at hmark
    have hnone : d.NoMark t := ⟨hstart, hmark⟩
    by_cases hescape : d.escape.startsAt t = true
    · obtain ⟨hne, r, rfl⟩ := Text.startsAt_iff.1 hescape
      rw [argumentFrom_escape hnone hne] at h ⊢
      obtain ⟨hend, hclosed⟩ := ih _ (shorter rfl hne) h rfl
      rw [← argumentFrom_append depth r] at hnone
      exact ⟨hend, hclosed.escape hnone hne⟩
    · cases t with
      | nil => exact absurd h (by simp [argumentFrom, Text.scan, Text.startsAt])
      | cons c r =>
        rw [Bool.not_eq_true] at hescape
        rw [argumentFrom_cons hnone hescape] at h ⊢
        obtain ⟨hend, hclosed⟩ := ih _ (shorter rfl (List.cons_ne_nil c [])) h rfl
        rw [← argumentFrom_append depth r] at hnone hescape
        exact ⟨hend, hclosed.char hnone hescape⟩

theorem argument?_argStart (hopens : d.argStart ≠ []) (t : Text) :
    d.argument? (d.argStart ++ t) = if d.argEnd.startsAt (d.argumentFrom 0 t).2 then
      some ((d.argumentFrom 0 t).1, (d.argumentFrom 0 t).2.drop d.argEnd.length) else none := by
  simp [argument?, Text.startsAt_iff, hopens, cutArgument_eq]

/-- An argument is a text between its marks in which the marks pair up. -/
theorem argument?_eq_some_iff : d.argument? t = some (inner, after) ↔
    t = d.argStart ++ (inner ++ (d.argEnd ++ after)) ∧ d.argStart ≠ [] ∧
    d.Balanced (d.argEnd ++ after) inner ∧ d.ClosesAt (d.argEnd ++ after) := by
  constructor
  · intro h
    obtain ⟨heq, hopens⟩ := d.eq_append_of_argument? h
    simp only [List.append_assoc] at heq
    subst heq
    rw [argument?_argStart hopens, Option.ite_none_right_eq_some] at h
    obtain ⟨hend, hcut⟩ := h
    obtain ⟨hinner, -⟩ := Prod.mk.inj (Option.some.inj hcut)
    obtain ⟨hcloses, hclosed⟩ := closes_of_argumentFrom hend
    have hrest := argumentFrom_append (d := d) 0 (inner ++ (d.argEnd ++ after))
    rw [hinner, List.append_cancel_left_eq] at hrest
    rw [hrest] at hcloses hclosed
    rw [hinner] at hclosed
    exact ⟨rfl, hopens, hclosed, hcloses⟩
  · rintro ⟨rfl, hopens, hinner, hcloses⟩
    have hcut := hinner.argumentFrom 0
    rw [argumentFrom_zero hcloses, List.append_nil] at hcut
    rw [argument?_argStart hopens, hcut, if_pos hcloses.2, List.drop_left]

end Search

end Delimiters

section Groups

variable {ks ks' : List TokenKind}

theorem groupsAfter?_of_step {g g' : Stand} {k : TokenKind} (h : Stand.Step g k g') :
    groupsAfter? (g.marks.count .argStart) k = some (g'.marks.count .argStart) := by
  cases h <;> simp [groupsAfter?]

theorem groupsAfter?_of_run {g g' : Stand} (h : Stand.Run g ks g') :
    ks.foldlM groupsAfter? (g.marks.count .argStart) = some (g'.marks.count .argStart) := by
  induction h with
  | nil => rfl
  | cons hstep _ ih =>
    rw [List.foldlM_cons, groupsAfter?_of_step hstep]
    exact ih

/-- Tokens of a text that is cut to the end leave no group open. -/
theorem groupsAfter?_of_lex {d : Delimiters} {t : Text} (h : (d.lex t).cause = none) :
    ((d.lex t).lexemes.map Lexeme.kind).foldlM groupsAfter? 0 = some 0 := by
  obtain ⟨spot, -, hrun⟩ := d.settled_of_lex h .statement [] trivial
  exact groupsAfter?_of_run hrun

/-- A group ends with the first token that closes what was open before it. -/
theorem group_unique {back back' : List TokenKind} (h : ks.foldlM groupsAfter? 0 = some 0)
    (h' : ks'.foldlM groupsAfter? 0 = some 0)
    (heq : ks ++ .argEnd :: back = ks' ++ .argEnd :: back') : ks = ks' := by
  have ended : ∀ {ks more : List TokenKind}, ks.foldlM groupsAfter? 0 = some 0 →
      (ks ++ .argEnd :: more).foldlM groupsAfter? 0 ≠ some 0 := by
    intro ks more hks
    simp [List.foldlM_append, hks, groupsAfter?]
  obtain ⟨more, rfl, hmore⟩ | ⟨more, rfl, -⟩ := append_eq_append_cons heq
  · cases more with
    | nil => rw [List.append_nil]
    | cons k more =>
      obtain ⟨rfl, -⟩ := List.cons.inj hmore
      exact absurd h' (ended h)
  · exact absurd h (ended h')

end Groups

end Stencil
