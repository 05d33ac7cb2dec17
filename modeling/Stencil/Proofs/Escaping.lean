import Stencil.Proofs.Lines
import Stencil.Proofs.Reading

/-! Text whose escapes are doubled is literal text, and is read as what it was: the scan for literal
text and the undoing of doubled escapes come upon the doubled escapes at the same places, however
the escape overlaps itself. -/
namespace Stencil

namespace Text

theorem startsAt_eq_false {mark t : Text} (h : ¬ mark <+: t) : mark.startsAt t = false :=
  Bool.eq_false_iff.2 fun hs => h (startsAt_iff.1 hs).2

theorem replaceFrom_eq_drop (old new : Text) (n : Nat) (t : Text) :
    replaceFrom old new n t = replaceFrom old new 0 (t.drop n) := by
  induction t generalizing n with
  | nil => simp [replaceFrom]
  | cons c r ih =>
    cases n with
    | zero => rfl
    | succ n => exact ih n

theorem replace_append {old : Text} (h : old ≠ []) (new r : Text) :
    replace (old ++ r) old new = new ++ replace r old new := by
  obtain ⟨c, s, rfl⟩ := List.exists_cons_of_ne_nil h
  have hstarts : startsAt (c :: s) (c :: (s ++ r)) = true :=
    startsAt_iff.2 ⟨h, List.prefix_append (c :: s) r⟩
  rw [replace, List.cons_append, replaceFrom, if_pos hstarts, replaceFrom_eq_drop]
  simp [replace]

theorem replace_cons {old : Text} {c : Char} {r : Text} (h : ¬ old <+: c :: r) (new : Text) :
    replace (c :: r) old new = c :: replace r old new := by
  rw [replace, replaceFrom, if_neg (by simp [startsAt_eq_false h])]
  rfl

/-- Every text is reached over leftmost occurrences of a mark and other characters. -/
theorem mark_induction {mark : Text} {motive : Text → Prop} (hmark : mark ≠ []) (nil : motive [])
    (occurrence : ∀ r, motive r → motive (mark ++ r))
    (char : ∀ c r, ¬ mark <+: c :: r → motive r → motive (c :: r)) (t : Text) : motive t := by
  induction hn : t.length using Nat.strongRecOn generalizing t with
  | ind n ih =>
    match t with
    | [] => exact nil
    | c :: r =>
      by_cases hs : mark <+: c :: r
      · obtain ⟨s, heq⟩ := hs
        rw [← heq]
        refine occurrence s (ih _ ?_ s rfl)
        rw [← hn]
        exact length_lt_of_append heq hmark
      · exact char c r hs (ih _ (hn ▸ Nat.lt_succ_self _) r rfl)

end Text

namespace Delimiters

section Literal

variable {d : Delimiters} {c : Char} {r : Text}

theorem cutRaw_doubled (hescape : d.escape ≠ [])
    (heval : d.evalStart.startsAt (d.escape ++ (d.escape ++ r)) = false) :
    d.cutRaw (d.escape ++ (d.escape ++ r)) =
      (d.escape ++ (d.escape ++ (d.cutRaw r).1), (d.cutRaw r).2) := by
  have hcommand : d.atCommand (d.escape ++ (d.escape ++ r)) = false := by simp [atCommand]
  have hdoubled : d.atDoubled (d.escape ++ (d.escape ++ r)) = true := by
    simp [atDoubled, Text.startsAt_iff, hescape]
  have hlength : 2 * d.escape.length - 1 = (d.escape ++ d.escape).length - 1 := by
    rw [List.length_append, Nat.two_mul]
  rw [← List.append_assoc] at hcommand heval hdoubled ⊢
  rw [← List.append_assoc]
  refine Text.scan_of_step (by simp [hescape]) ?_
  rw [hcommand, heval, hdoubled, hlength]
  rfl

theorem cutRaw_cons (hescape : ¬ d.escape <+: c :: r)
    (heval : d.evalStart.startsAt (c :: r) = false) :
    d.cutRaw (c :: r) = (c :: (d.cutRaw r).1, (d.cutRaw r).2) := by
  have hnot := Text.startsAt_eq_false hescape
  refine Text.scan_of_step (List.cons_ne_nil c []) ?_
  simp [atCommand, atDoubled, hnot, heval]

end Literal

/-- The text with each escape in it doubled, from the left. -/
def protect (d : Delimiters) (t : Text) : Text := t.replace d.escape (d.escape ++ d.escape)

section Doubling

variable {d : Delimiters} {r : Text} {c : Char} (hescape : d.escape ≠ [])

theorem protect_cons (h : ¬ d.escape <+: c :: r) : d.protect (c :: r) = c :: d.protect r :=
  Text.replace_cons h _

include hescape

theorem protect_append : d.protect (d.escape ++ r) = d.escape ++ (d.escape ++ d.protect r) := by
  rw [protect, Text.replace_append hescape, List.append_assoc, protect]

theorem protect_eq_nil_iff {t : Text} : d.protect t = [] ↔ t = [] := by
  cases t using Text.mark_induction hescape with
  | nil => simp [protect, Text.replace, Text.replaceFrom]
  | occurrence r _ => simp [protect_append hescape, hescape]
  | char c r hc _ => simp [protect_cons hc]

theorem prefix_of_prefix_protect {u t : Text} (hlen : u.length ≤ d.escape.length)
    (h : u <+: d.protect t) : u <+: t := by
  induction t using Text.mark_induction hescape generalizing u with
  | nil => exact h
  | occurrence r ih =>
    rw [protect_append hescape] at h
    have hmark : u <+: d.escape := List.prefix_of_prefix_length_le h (List.prefix_append _ _) hlen
    exact hmark.trans (List.prefix_append _ _)
  | char c r hc ih =>
    rw [protect_cons hc] at h
    cases u with
    | nil => exact List.nil_prefix
    | cons a u =>
      obtain ⟨rfl, hu⟩ := List.cons_prefix_cons.1 h
      exact List.cons_prefix_cons.2 ⟨rfl, ih (Nat.le_of_succ_le hlen) hu⟩

theorem not_prefix_protect_cons (h : ¬ d.escape <+: c :: r) :
    ¬ d.escape <+: c :: d.protect r := by
  rw [← protect_cons h]
  exact fun hprefix => h (prefix_of_prefix_protect hescape le_rfl hprefix)

/-- Undoing the doubled escapes of a protected text gives the text. -/
theorem unescape_protect (t : Text) : Reading.unescape d (d.protect t) = t := by
  have hdouble : d.escape ++ d.escape ≠ [] := by simp [hescape]
  induction t using Text.mark_induction hescape with
  | nil => rfl
  | occurrence r ih =>
    rw [protect_append hescape, ← List.append_assoc, Reading.unescape,
      Text.replace_append hdouble, ← Reading.unescape, ih]
  | char c r hc ih =>
    have hnot : ¬ d.escape ++ d.escape <+: c :: d.protect r := fun h =>
      not_prefix_protect_cons hescape hc ((List.prefix_append _ _).trans h)
    rw [protect_cons hc, Reading.unescape, Text.replace_cons hnot, ← Reading.unescape, ih]

/-- No command begins in a protected text, and every escape in it is doubled. -/
theorem atCommand_protect (t : Text) : d.atCommand (d.protect t) = false := by
  cases t using Text.mark_induction hescape with
  | nil => simp [protect, Text.replace, Text.replaceFrom, atCommand]
  | occurrence r _ =>
    rw [protect_append hescape]
    simp [atCommand]
  | char c r hc _ =>
    rw [protect_cons hc, atCommand, Text.startsAt_eq_false (not_prefix_protect_cons hescape hc),
      Bool.false_and]

theorem cutRaw_protect {t : Text}
    (heval : ∀ s, s <:+ d.protect t → d.evalStart.startsAt s = false) :
    d.cutRaw (d.protect t) = (d.protect t, []) := by
  induction t using Text.mark_induction hescape with
  | nil => rfl
  | occurrence r ih =>
    rw [protect_append hescape] at heval ⊢
    have hrest : d.protect r <:+ d.escape ++ (d.escape ++ d.protect r) :=
      (List.suffix_append _ _).trans (List.suffix_append _ _)
    rw [cutRaw_doubled hescape (heval _ List.suffix_rfl), ih fun s hs => heval s (hs.trans hrest)]
  | char c r hc ih =>
    rw [protect_cons hc] at heval ⊢
    have hrest : d.protect r <:+ c :: d.protect r := List.suffix_cons _ _
    rw [cutRaw_cons (not_prefix_protect_cons hescape hc) (heval _ List.suffix_rfl),
      ih fun s hs => heval s (hs.trans hrest)]

/-- A protected text in which no expression begins is one lexeme of literal text, or none. -/
theorem lex_protect {t : Text} (heval : d.evalStart = [] ∨ ¬ d.evalStart <:+: d.protect t) :
    d.lex (d.protect t) = ⟨if t = [] then [] else [⟨.raw, d.protect t⟩], none⟩ := by
  have hnowhere : ∀ s, s <:+ d.protect t → d.evalStart.startsAt s = false := by
    refine fun s hs => Bool.eq_false_iff.2 fun hstarts => ?_
    obtain ⟨hne, hprefix⟩ := Text.startsAt_iff.1 hstarts
    exact heval.elim hne fun hnot => hnot (List.infix_iff_prefix_suffix.2 ⟨s, hprefix, hs⟩)
  have hlive : ¬ d.AtLive (d.protect t) := by
    simp [AtLive, atCommand_protect hescape, hnowhere _ List.suffix_rfl]
  rw [lex_eq, pieces_literal hlive (cutRaw_protect hescape hnowhere)]
  simp only [protect_eq_nil_iff hescape]
  split <;> rfl

end Doubling

end Delimiters

/-- A text whose escapes are doubled, and in which no expression begins, is read as itself. -/
theorem parse_protect {d : Delimiters} {t : Text} (hescape : d.escape ≠ [])
    (heval : d.evalStart = [] ∨ ¬ d.evalStart <:+: d.protect t) :
    ∃ tokens, tokenize d (d.protect t) = .ok tokens ∧
      (∀ token ∈ tokens, token.kind = .raw) ∧
      parse d tokens = .ok (if t = [] then [] else [.mk (.raw t) Position.start.here]) := by
  refine ⟨Token.place .start (if t = [] then [] else [⟨.raw, d.protect t⟩]), ?_, ?_, ?_⟩
  · rw [tokenize_eq_ok_iff, Delimiters.lex_protect hescape heval]
    exact ⟨rfl, rfl⟩
  · split <;> simp [Token.place]
  · split
    · rfl
    · have hnode : Reading.rawNode d (d.protect t) .start = .mk (.raw t) Position.start.here :=
        congrArg (fun u => Node.mk (.raw u) Position.start.here)
          (Delimiters.unescape_protect hescape t)
      exact congrArg (fun n => Except.ok [n]) hnode

/-- An escape that overlaps itself. -/
theorem parse_protect_overlapping : ∃ (d : Delimiters) (t : Text), d.escape = "aba".toList ∧
    t = "abababa\nba".toList ∧ d.protect t = "abaabababaaba\nba".toList ∧
    ∃ tokens, tokenize d (d.protect t) = .ok tokens ∧
      parse d tokens = .ok [.mk (.raw t) Position.start.here] := by
  let d : Delimiters := { Config.initial.delimiters with escape := "aba".toList }
  have heval : ¬ d.evalStart <:+: d.protect "abababa\nba".toList := by decide
  obtain ⟨tokens, htokens, -, hparse⟩ := parse_protect (d := d) (by decide) (.inr heval)
  exact ⟨d, _, rfl, rfl, by decide, tokens, htokens, hparse⟩

end Stencil
