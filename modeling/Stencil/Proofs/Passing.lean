import Stencil.Proofs.Lexing
import Stencil.Proofs.Scanner

/-! How far a scanner passes: to the place where the text is cut, and with the row and the column of
that place. -/
namespace Stencil

theorem Text.scan_of_step_eq_none {σ : Type} {step : σ → Text → Option (Nat × σ)} {s : σ}
    {t : Text} (h : step s t = none) : scan step 0 s t = ([], t) := by
  cases t with
  | nil => rfl
  | cons c r => rw [scan, h]

theorem Text.scan_cons_of_step {σ : Type} {step : σ → Text → Option (Nat × σ)} {s s' : σ} {c : Char}
    {r : Text} (h : step s (c :: r) = some (0, s')) :
    scan step 0 s (c :: r) = (c :: (scan step 0 s' r).1, (scan step 0 s' r).2) := by
  rw [scan, h]

theorem Delimiters.atDoubled_iff {d : Delimiters} {t : Text} : d.atDoubled t = true ↔
    d.escape ≠ [] ∧ d.escape ++ d.escape <+: t := by
  rw [atDoubled, Bool.and_eq_true, Text.startsAt_iff, List.isPrefixOf_iff_prefix]
  constructor
  · rintro ⟨⟨hne, r, rfl⟩, h⟩
    rw [List.drop_left] at h
    exact ⟨hne, (List.prefix_append_right_inj d.escape).2 h⟩
  · rintro ⟨hne, r, rfl⟩
    simp [hne]

namespace Scanner

variable {d : Delimiters} {before t : Text} {tokens : List Token}

/-- The scanner between `before` and `ahead`, where it stands if it has counted well. -/
def between (before ahead : Text) (tokens : List Token) : Scanner :=
  ⟨before ++ ahead, before.length, (Position.start.after before).row,
    (Position.start.after before).col, tokens⟩

@[simp] theorem rest_between : (between before t tokens).rest = t := List.drop_left

@[simp] theorem position_between :
    (between before t tokens).position = Position.start.after before := rfl

@[simp] theorem tokens_between : (between before t tokens).tokens = tokens := rfl

@[simp] theorem isAt_between (mark : Text) :
    (between before t tokens).isAt mark = mark.startsAt t := by
  rw [isAt, rest_between]

@[simp] theorem atEnd_between : (between before t tokens).atEnd = t.isEmpty := by
  cases t <;> simp [atEnd, between]

@[simp] theorem push_between (kind : TokenKind) (text : Text) (p : Position) :
    (between before t tokens).push kind text p =
      between before t (tokens ++ [⟨kind, text, p⟩]) := rfl

@[simp] theorem extend_between (more : List Token) :
    (between before t tokens).extend more = between before t (tokens ++ more) := rfl

@[simp] theorem since_between (before taken t : Text) (tokens : List Token) :
    (between (before ++ taken) t tokens).since (between before (taken ++ t) tokens).index =
      taken := by
  rw [since, between, between, List.append_assoc, ← List.append_assoc before, List.take_left,
    List.drop_left]

theorem advance_between (c : Char) :
    (between before (c :: t) tokens).advance = between (before ++ [c]) t tokens := by
  rw [advance, rest_between]
  by_cases hc : c = '\n' <;> simp [between, Position.after, Position.next, hc]

@[simp] theorem advanceOver_between (taken : Text) :
    (between before (taken ++ t) tokens).advanceOver taken =
      between (before ++ taken) t tokens := by
  induction taken generalizing before with
  | nil => simp [advanceOver]
  | cons c taken ih =>
    change (between before (c :: (taken ++ t)) tokens).advance.advanceOver taken = _
    rw [advance_between, ih, List.append_assoc]
    rfl

theorem advanceUntil_between (stop : Text → Bool) :
    (between before t tokens).advanceUntil stop =
      between (before ++ (t.cutWhere stop).1) (t.cutWhere stop).2 tokens := by
  induction t generalizing before with
  | nil => simp [advanceUntil, Text.cutWhere]
  | cons c r ih =>
    rw [advanceUntil, rest_between, atEnd_between, Text.cutWhere]
    by_cases hstop : stop (c :: r) = true
    · simp [hstop]
    · simp [hstop, advance_between, ih]

/-- At `t`, `pass` does what `step` says. -/
inductive KeepsPace {σ α : Type} (step : σ → Text → Option (Nat × σ)) (pass : σ → Scanner → α)
    (out : Scanner → α) (s : σ) (t : Text) : Prop
  | stops (h : t = [] ∨ step s t = none)
      (hpass : ∀ before tokens, pass s (between before t tokens) = out (between before t tokens))
  | passes {mark : Text} (s' : σ) (hne : mark ≠ []) (hmark : mark <+: t)
      (h : step s t = some (mark.length - 1, s'))
      (hpass : ∀ before tokens, pass s (between before t tokens) =
        pass s' ((between before t tokens).advanceOver mark))
  | advances (s' : σ) (hne : t ≠ []) (h : step s t = some (0, s'))
      (hpass : ∀ before tokens, pass s (between before t tokens) =
        pass s' (between before t tokens).advance)

/-- What keeps pace with the step of a scan comes to where the scan cuts. -/
theorem pass_between {σ α : Type} {step : σ → Text → Option (Nat × σ)} (pass : σ → Scanner → α)
    (out : Scanner → α) (h : ∀ s t, KeepsPace step pass out s t) (s : σ) :
    pass s (between before t tokens) =
      out (between (before ++ (t.scan step 0 s).1) (t.scan step 0 s).2 tokens) := by
  induction hn : t.length using Nat.strongRecOn generalizing before t s with
  | ind n ih =>
    subst hn
    cases h s t with
    | stops hstop hpass =>
      have hscan : t.scan step 0 s = ([], t) := by
        obtain rfl | hstop := hstop
        · rfl
        · exact Text.scan_of_step_eq_none hstop
      rw [hpass, hscan, List.append_nil]
    | passes s' hne hmark hstep hpass =>
      obtain ⟨r, rfl⟩ := hmark
      have hpos := List.length_pos_iff.2 hne
      rw [hpass, advanceOver_between, ih _ (by rw [List.length_append]; omega) _ rfl,
        Text.scan_of_step hne hstep, List.append_assoc]
    | advances s' hne hstep hpass =>
      obtain ⟨c, r, rfl⟩ := List.exists_cons_of_ne_nil hne
      rw [hpass, advance_between, ih _ (Nat.lt_succ_self _) _ rfl, Text.scan_cons_of_step hstep,
        List.append_assoc]
      rfl

theorem passRaw_between :
    passRaw d (between before t tokens) =
      between (before ++ (d.cutRaw t).1) (d.cutRaw t).2 tokens := by
  refine pass_between (fun _ => passRaw d) id (fun _ t => ?_) ()
  have hpass : ∀ before tokens, passRaw d (between before t tokens) =
      if t.isEmpty || d.atCommand t || d.evalStart.startsAt t then between before t tokens
      else if d.atDoubled t then passRaw d ((between before t tokens).advanceOver
        (d.escape ++ d.escape))
      else passRaw d (between before t tokens).advance := by
    intro before tokens
    rw [passRaw, atEnd_between, rest_between, isAt_between]
  by_cases hstop : (t.isEmpty || d.atCommand t || d.evalStart.startsAt t) = true
  · refine .stops (by by_cases hnil : t = [] <;> simp_all) fun before tokens => ?_
    rw [hpass, if_pos hstop]
    rfl
  have hnil : t ≠ [] := by simp_all
  have hgoes : ¬(d.atCommand t || d.evalStart.startsAt t) = true := by simp_all
  simp only [if_neg hstop] at hpass
  by_cases hdoubled : d.atDoubled t = true
  · obtain ⟨hne, hmark⟩ := d.atDoubled_iff.1 hdoubled
    refine .passes () (by simp [hne]) hmark ?_ fun before tokens => ?_
    · rw [if_neg hgoes, if_pos hdoubled, List.length_append, Nat.two_mul]
    · rw [hpass, if_pos hdoubled]
  · refine .advances () hnil ?_ fun before tokens => ?_
    · rw [if_neg hgoes, if_neg hdoubled]
    · rw [hpass, if_neg hdoubled]

theorem passValue_between :
    passValue d 0 (between before t tokens) =
      between (before ++ (d.cutValue t).1) (d.cutValue t).2 tokens := by
  refine pass_between (passValue d) id (fun depth t => ?_) 0
  have hpass : ∀ before tokens, passValue d depth (between before t tokens) =
      if t.isEmpty then between before t tokens
      else if d.argStart.startsAt t then
        passValue d (depth + 1) ((between before t tokens).advanceOver d.argStart)
      else if 0 < depth && d.argEnd.startsAt t then
        passValue d (depth - 1) ((between before t tokens).advanceOver d.argEnd)
      else if depth = 0 && (d.paramSep.startsAt t || d.paramEnd.startsAt t) then
        between before t tokens
      else passValue d depth (between before t tokens).advance := by
    intro before tokens
    rw [passValue]
    simp only [atEnd_between, isAt_between]
  by_cases hnil : t = []
  · exact .stops (.inl hnil) fun before tokens => by rw [hpass, if_pos (by simp [hnil])]; rfl
  simp only [if_neg (show ¬t.isEmpty = true by simpa using hnil)] at hpass
  by_cases hopen : d.argStart.startsAt t = true
  · obtain ⟨hne, hmark⟩ := Text.startsAt_iff.1 hopen
    exact .passes _ hne hmark (if_pos hopen) fun before tokens => by rw [hpass, if_pos hopen]
  simp only [if_neg hopen] at hpass
  cases depth with
  | zero =>
    by_cases hend : (d.paramSep.startsAt t || d.paramEnd.startsAt t) = true
    · refine .stops (.inr ((if_neg hopen).trans (if_pos hend))) fun before tokens => ?_
      rw [hpass, if_neg (by simp), if_pos (by simpa using hend)]
      rfl
    · refine .advances _ hnil ((if_neg hopen).trans (if_neg hend)) fun before tokens => ?_
      rw [hpass, if_neg (by simp), if_neg (by simpa using hend)]
  | succ depth =>
    by_cases hclose : d.argEnd.startsAt t = true
    · obtain ⟨hne, hmark⟩ := Text.startsAt_iff.1 hclose
      refine .passes _ hne hmark ((if_neg hopen).trans (if_pos hclose)) fun before tokens => ?_
      rw [hpass, if_pos (by simp [hclose])]
      rfl
    · refine .advances _ hnil ((if_neg hopen).trans (if_neg hclose)) fun before tokens => ?_
      rw [hpass, if_neg (by simp [hclose]), if_neg (by simp)]

theorem passArgument_eq (d : Delimiters) (depth : Nat) (before t : Text) (tokens : List Token) :
    passArgument d depth (between before t tokens) =
    if t.isEmpty then none
    else if d.argStart.startsAt t then
      passArgument d (depth + 1) ((between before t tokens).advanceOver d.argStart)
    else if d.argEnd.startsAt t then
      if depth - 1 = 0 then some (between before t tokens)
      else passArgument d (depth - 1) ((between before t tokens).advanceOver d.argEnd)
    else if d.escape.startsAt t then
      passArgument d depth (((between before t tokens).advanceOver d.escape).advanceUntil fun r =>
        d.argStart.startsAt r || d.argEnd.startsAt r || d.escape.startsAt r)
    else passArgument d depth (between before t tokens).advance := by
  rw [passArgument]
  simp only [atEnd_between, isAt_between]

theorem passArgument_advanceUntil (depth : Nat) :
    passArgument d depth ((between before t tokens).advanceUntil fun r =>
      d.argStart.startsAt r || d.argEnd.startsAt r || d.escape.startsAt r) =
    passArgument d depth (between before t tokens) := by
  induction t generalizing before with
  | nil => simp [advanceUntil]
  | cons c r ih =>
    rw [advanceUntil, rest_between, atEnd_between]
    split
    · rfl
    · next hstop =>
      simp only [List.isEmpty_cons, Bool.false_or, Bool.or_eq_true, not_or] at hstop
      obtain ⟨⟨hopen, hclose⟩, hescape⟩ := hstop
      rw [passArgument_eq, advance_between, ih, if_neg (by simp), if_neg hopen, if_neg hclose,
        if_neg hescape]

/-- The scanner, if an argument ends at it. -/
def closed? (d : Delimiters) (s : Scanner) : Option Scanner :=
  if s.isAt d.argEnd then some s else none

theorem closed?_between (d : Delimiters) (before t : Text) (tokens : List Token) :
    closed? d (between before t tokens) =
      if d.argEnd.startsAt t then some (between before t tokens) else none := by
  rw [closed?, isAt_between]

theorem passArgument_between :
    passArgument d 1 (between before t tokens) =
      if d.argEnd.startsAt (d.cutArgument t).2 then
        some (between (before ++ (d.cutArgument t).1) (d.cutArgument t).2 tokens)
      else none := by
  refine (pass_between (fun depth => passArgument d (depth + 1)) (closed? d) (fun depth t => ?_)
    0).trans (closed?_between d _ _ _)
  by_cases hnil : t = []
  · exact .stops (.inl hnil) fun before tokens => by
      simp [passArgument_eq, closed?, hnil, Text.startsAt]
  have hpass := fun before tokens =>
    (passArgument_eq d (depth + 1) before t tokens).trans (if_neg (by simpa using hnil))
  by_cases hopen : d.argStart.startsAt t = true
  · obtain ⟨hne, hmark⟩ := Text.startsAt_iff.1 hopen
    exact .passes _ hne hmark (if_pos hopen) fun before tokens => by rw [hpass, if_pos hopen]
  simp only [if_neg hopen] at hpass
  by_cases hclose : d.argEnd.startsAt t = true
  · obtain ⟨hne, hmark⟩ := Text.startsAt_iff.1 hclose
    simp only [if_pos hclose] at hpass
    cases depth with
    | zero =>
      refine .stops (.inr ((if_neg hopen).trans (if_pos hclose))) fun before tokens => ?_
      rw [hpass, closed?_between, if_pos hclose]
      rfl
    | succ depth =>
      refine .passes _ hne hmark ((if_neg hopen).trans (if_pos hclose)) fun before tokens => ?_
      rw [hpass]
      rfl
  simp only [if_neg hclose] at hpass
  by_cases hescape : d.escape.startsAt t = true
  · obtain ⟨hne, r, rfl⟩ := Text.startsAt_iff.1 hescape
    refine .passes depth hne (List.prefix_append _ r) ?_ fun before tokens => ?_
    · rw [if_neg hopen, if_neg hclose, if_pos hescape]
    rw [hpass, if_pos hescape, advanceOver_between, passArgument_advanceUntil]
  · refine .advances _ hnil (by rw [if_neg hopen, if_neg hclose, if_neg hescape])
      fun before tokens => ?_
    rw [hpass, if_neg hescape]

end Scanner
end Stencil
