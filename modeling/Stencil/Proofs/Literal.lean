import Stencil.Proofs.Calculating
import Stencil.Proofs.Variables

/-! A text can be written as a quoted literal that stands for just this text: substitution changes
nothing in it, and the calculator reads the text back. -/
namespace Stencil

open Stencil.Rendering

namespace Literal

/-- A character in a literal, with a backslash before what would not stand for itself. -/
def protect (c : Char) : Text :=
  if c = '\\' || c = '\'' || c = Reference.sigil then ['\\', c] else [c]

/-- The rest of a literal behind its first quote. -/
def rest (t : Text) : Text := t.flatMap protect ++ ['\'']

/-- The literal of a text. -/
def write (t : Text) : Text := '\'' :: rest t

section Writing

variable {c : Char} {t : Text}

theorem rest_cons (c : Char) (t : Text) : rest (c :: t) = protect c ++ rest t := by
  simp [rest]

theorem protect_cases (c : Char) :
    protect c = ['\\', c] ∧ c ≠ '\n' ∧ c ≠ 'n' ∧ c ≠ 't' ∨
      protect c = [c] ∧ c ≠ '\\' ∧ c ≠ '\'' ∧ c ≠ Reference.sigil := by
  unfold protect
  split
  · next h =>
    refine .inl ⟨rfl, ?_⟩
    obtain (rfl | rfl) | rfl : (c = '\\' ∨ c = '\'') ∨ c = Reference.sigil := by simpa using h
    all_goals decide
  · next h => exact .inr ⟨rfl, by simpa [and_assoc] using h⟩

end Writing

theorem substituteFrom_rest (value? : Text → Option Text) (inWord : Bool) (t : Text) :
    substituteFrom value? (some '\'') inWord (rest t) = rest t := by
  induction t generalizing inWord with
  | nil =>
    have hplain : Reference.begins none '\'' [] = false := by decide
    simp [rest, substituteFrom, Reference.protects, Reference.quoteAfter, hplain]
  | cons c t ih =>
    rw [rest_cons]
    obtain ⟨hc, -⟩ | ⟨hc, hescape, hquote, hsigil⟩ := protect_cases c
    · have hprotects : Reference.protects (some '\'') '\\' (c :: rest t) = true := rfl
      rw [hc, List.cons_append, List.singleton_append, substituteFrom, if_pos hprotects]
      exact congrArg (['\\', c] ++ ·) (ih _)
    · have hprotects : ¬ Reference.protects (some '\'') c (rest t) = true := by
        simp [Reference.protects, hescape]
      have hopen : Reference.quoteAfter (some '\'') c = some '\'' := if_neg hquote
      have hbegins : ¬ (Reference.begins (some '\'') c (rest t) && !inWord) = true := by
        simp [Reference.begins, hsigil]
      rw [hc, List.singleton_append, substituteFrom, if_neg hprotects]
      dsimp only
      rw [hopen, if_neg hbegins, ih]

/-- Whatever the variables are, the literal stays as it is. -/
theorem substitute_write (value? : Text → Option Text) (t : Text) :
    substitute value? (write t) = write t := by
  have hprotects : ¬ Reference.protects none '\'' (rest t) = true := nofun
  have hopen : Reference.quoteAfter none '\'' = some '\'' := rfl
  have hbegins : ¬ (Reference.begins (some '\'') '\'' (rest t) && !false) = true := nofun
  rw [substitute, write, substituteFrom, if_neg hprotects]
  dsimp only
  rw [hopen, if_neg hbegins, substituteFrom_rest]

/-- The calculator takes the backslashes off again, and reads the literal to its end. -/
theorem quoted_rest (t : Text) : Expr.quoted '\'' (rest t) = (some t, (rest t).length) := by
  induction t with
  | nil => rfl
  | cons c t ih =>
    rw [rest_cons]
    obtain ⟨hc, hbreak, hn, ht⟩ | ⟨hc, hescape, hquote, -⟩ := protect_cases c
    · rw [hc, List.cons_append, List.singleton_append, Expr.quoted, if_neg hbreak, if_neg hn,
        if_neg ht, ih]
      simp
    · rw [hc, List.singleton_append, Expr.quoted, if_neg hquote, if_neg hescape, ih]
      · simp
      · exact fun _ _ heq _ => hescape heq

theorem words_write (t : Text) :
    Expr.words (write t) = .ok [⟨.literal (.text t), write t⟩] := by
  have hgap : Expr.isGap '\'' = false := rfl
  have hsymbol : Expr.symbol '\'' (rest t) =
      .ok (.literal (.text t), (rest t).length + 1) := by
    simp [Expr.symbol, quoted_rest]
  rw [write, Expr.words, hgap, if_neg Bool.false_ne_true, hsymbol]
  simp [Expr.words, bind, Except.bind, pure, Except.pure]

/-- A literal is worth the text that it was written for. -/
theorem calculate_write (t : Text) : calculate (write t) = .ok (.text t) := by
  have hunary : Expr.Derives .unary [.literal (.text t)] (.literal (.text t)) :=
    .primary (.literal _)
  have hadditive : Expr.Derives .additive [.literal (.text t)] (.literal (.text t)) :=
    .operand rfl (.operand rfl hunary)
  have hor : Expr.Derives .or [.literal (.text t)] (.literal (.text t)) :=
    .operand rfl (.operand rfl (.operand rfl (.operand rfl hadditive)))
  exact (calculate_eq_ok_iff_derives (words_write t)).2 ⟨_, .plain hor, rfl⟩

end Literal

section Interpreting

variable {host : Host} {c : Config}

/-- The literal of a text gives just this text, whatever variables there are, and nothing else
happens. -/
theorem runs_visit_literal (hhost : host.evaluate = calculator) (hopen : c.enabled .eval = true)
    (t : Text) (k : Nat) (l : Location) (s : Session) :
    (visit host c (k + 1) (.mk (.expression (Literal.write t)) l)).Runs s t
      (s.asked (.evaluate (Literal.write t))) := by
  have hanswer : host.evaluate (Literal.write t) = .ok t := by
    rw [hhost, calculator, Literal.calculate_write]
    rfl
  have houtcome : (evaluate host c (Literal.write t) l).outcome s = _ := outcome_evaluate hopen
  rwa [Literal.substitute_write, hanswer] at houtcome

/-- A text that is a quote does not get out of a literal that speaks of its variable. -/
theorem runs_visit_literal_quote : ∃ (host : Host) (c : Config) (s : Session),
    (s.scopes.variableTexts s.scopes.current).get? ['x'] = some ['\''] ∧
    Literal.write "it's $x \\".toList = "'it\\'s \\$x \\\\'".toList ∧
    (visit host c 1 (.mk (.expression "'it\\'s \\$x \\\\'".toList) .start)).Runs s
      "it's $x \\".toList (s.asked (.evaluate "'it\\'s \\$x \\\\'".toList)) := by
  let host : Host := .offline fun _ => .error ""
  let s : Session := ⟨⟨[(['$', 'x'], .text ['\''])], []⟩, .empty⟩
  exact ⟨host, .initial, s, by decide, by decide, runs_visit_literal rfl rfl "it's $x \\".toList ..⟩

end Interpreting

end Stencil
