import Mathlib
import Stencil.Proofs.Reckoning

/-! The calculator accepts the grammar of its expressions and nothing else, and each accepted source
has one tree. The grammar stands here without the reader: a chain of operators takes its left side
from the chain itself, and so the operators of one level group from the left. -/
namespace Stencil
namespace Expr

/-- The phrases of the grammar, the loosest first. -/
inductive Phrase where
  | ternary
  | or
  | and
  | equality
  | comparison
  | additive
  | multiplicative
  | unary
  | primary
  deriving DecidableEq

/-- The operands and the operators of a phrase that is a chain. -/
def Phrase.chain? : Phrase → Option (Phrase × List (Mark × BinaryOp))
  | .or => some (.and, [(.or, .or)])
  | .and => some (.equality, [(.and, .and)])
  | .equality =>
    some (.comparison, [(.eq, .eq), (.ne, .ne), (.strictEq, .strictEq), (.strictNe, .strictNe)])
  | .comparison => some (.additive, [(.lt, .lt), (.le, .le), (.gt, .gt), (.ge, .ge)])
  | .additive => some (.multiplicative, [(.plus, .add), (.minus, .sub)])
  | .multiplicative => some (.unary, [(.star, .mul), (.slash, .div), (.percent, .rem)])
  | .ternary | .unary | .primary => none

/-- The operators in front of an operand. -/
def signs : List (Mark × UnaryOp) := [(.minus, .minus), (.plus, .plus), (.not, .not)]

/-- How a phrase derives symbols, and the tree of the derivation. -/
inductive Derives : Phrase → List Symbol → Expr → Prop
  | literal (v : Value) : Derives .primary [.literal v] (.literal v)
  | parentheses {ss : List Symbol} {e : Expr} : Derives .ternary ss e →
      Derives .primary (.mark .opening :: (ss ++ [.mark .closing])) e
  | primary {ss : List Symbol} {e : Expr} : Derives .primary ss e → Derives .unary ss e
  | sign {m : Mark} {op : UnaryOp} {ss : List Symbol} {e : Expr} : (m, op) ∈ signs →
      Derives .unary ss e → Derives .unary (.mark m :: ss) (.unary op e)
  | operand {p q : Phrase} {ops : List (Mark × BinaryOp)} {ss : List Symbol} {e : Expr} :
      p.chain? = some (q, ops) → Derives q ss e → Derives p ss e
  | operator {p q : Phrase} {ops : List (Mark × BinaryOp)} {m : Mark} {op : BinaryOp}
      {left right : List Symbol} {a b : Expr} : p.chain? = some (q, ops) → (m, op) ∈ ops →
      Derives p left a → Derives q right b → Derives p (left ++ .mark m :: right) (.binary op a b)
  | plain {ss : List Symbol} {e : Expr} : Derives .or ss e → Derives .ternary ss e
  | choice {condition yes no : List Symbol} {a b c : Expr} : Derives .or condition a →
      Derives .ternary yes b → Derives .ternary no c →
      Derives .ternary (condition ++ .mark .question :: (yes ++ .mark .colon :: no))
        (.choice a b c)

/-- A symbol without the value of the literal or the name. -/
inductive Terminal where
  | literal
  | name
  | mark (m : Mark)
  deriving DecidableEq

def Symbol.terminal : Symbol → Terminal
  | .literal _ => .literal
  | .name _ => .name
  | .mark m => .mark m

theorem Symbol.terminal_eq_literal_iff {s : Symbol} :
    s.terminal = .literal ↔ ∃ v, s = .literal v := by
  cases s <;> simp [terminal]

theorem Symbol.terminal_eq_mark_iff {s : Symbol} {m : Mark} :
    s.terminal = .mark m ↔ s = .mark m := by
  cases s <;> simp [terminal]

namespace Derives

theorem name_notMem {p : Phrase} {ss : List Symbol} {e : Expr} (h : Derives p ss e) (n : Text) :
    .name n ∉ ss := by
  induction h with
  | literal v => simp
  | parentheses _ ih => simp [ih]
  | primary _ ih => exact ih
  | sign _ _ ih => simp [ih]
  | operand _ _ ih => exact ih
  | operator _ _ _ _ ihl ihr => simp [ihl, ihr]
  | plain _ ih => exact ih
  | choice _ _ _ ihc ihy ihn => simp [ihc, ihy, ihn]

/-- What is derived does not depend on the values of the literals. -/
theorem of_terminals_eq {p : Phrase} {ss ss' : List Symbol} {e : Expr} (h : Derives p ss e)
    (heq : ss'.map Symbol.terminal = ss.map Symbol.terminal) : ∃ e', Derives p ss' e' := by
  induction h generalizing ss' with
  | literal v =>
    obtain ⟨s, rfl, hs⟩ := List.map_eq_singleton_iff.1 heq
    obtain ⟨v', rfl⟩ := Symbol.terminal_eq_literal_iff.1 hs
    exact ⟨_, literal v'⟩
  | parentheses _ ih =>
    obtain ⟨_, _, rfl, hopening, hrest⟩ := List.map_eq_cons_iff.1 heq
    rw [List.map_append] at hrest
    obtain ⟨_, _, rfl, hinner, hclosing⟩ := List.map_eq_append_iff.1 hrest
    obtain ⟨_, rfl, hmark⟩ := List.map_eq_singleton_iff.1 hclosing
    obtain rfl := Symbol.terminal_eq_mark_iff.1 hopening
    obtain rfl := Symbol.terminal_eq_mark_iff.1 hmark
    exact (ih hinner).imp fun _ => parentheses
  | primary _ ih => exact (ih heq).imp fun _ => primary
  | sign hmem _ ih =>
    obtain ⟨_, _, rfl, hmark, hrest⟩ := List.map_eq_cons_iff.1 heq
    obtain rfl := Symbol.terminal_eq_mark_iff.1 hmark
    obtain ⟨e', he'⟩ := ih hrest
    exact ⟨_, sign hmem he'⟩
  | operand hchain _ ih => exact (ih heq).imp fun _ => operand hchain
  | operator hchain hmem _ _ ihl ihr =>
    rw [List.map_append] at heq
    obtain ⟨_, _, rfl, hleft, hrest⟩ := List.map_eq_append_iff.1 heq
    obtain ⟨_, _, rfl, hmark, hright⟩ := List.map_eq_cons_iff.1 hrest
    obtain rfl := Symbol.terminal_eq_mark_iff.1 hmark
    obtain ⟨a', ha'⟩ := ihl hleft
    obtain ⟨b', hb'⟩ := ihr hright
    exact ⟨_, operator hchain hmem ha' hb'⟩
  | plain _ ih => exact (ih heq).imp fun _ => plain
  | choice _ _ _ ihc ihy ihn =>
    rw [List.map_append] at heq
    obtain ⟨_, _, rfl, hcondition, hrest⟩ := List.map_eq_append_iff.1 heq
    obtain ⟨_, _, rfl, hquestion, hrest⟩ := List.map_eq_cons_iff.1 hrest
    rw [List.map_append] at hrest
    obtain ⟨_, _, rfl, hyes, hrest⟩ := List.map_eq_append_iff.1 hrest
    obtain ⟨_, _, rfl, hcolon, hno⟩ := List.map_eq_cons_iff.1 hrest
    obtain rfl := Symbol.terminal_eq_mark_iff.1 hquestion
    obtain rfl := Symbol.terminal_eq_mark_iff.1 hcolon
    obtain ⟨a', ha'⟩ := ihc hcondition
    obtain ⟨b', hb'⟩ := ihy hyes
    obtain ⟨c', hc'⟩ := ihn hno
    exact ⟨_, choice ha' hb' hc'⟩

end Derives

/-- What is read is `e`, and `rest` is left. -/
def Gives {Left : List Word → Prop} (r : Except ExprCause (Expr × { rest // Left rest }))
    (e : Expr) (rest : List Word) : Prop :=
  ∃ h, r = .ok (e, ⟨rest, h⟩)

section Gives

variable {Left Left' : List Word → Prop} {e e' : Expr} {rest rest' : List Word}
  {r : Except ExprCause (Expr × { rest // Left rest })}

theorem Gives.left (h : Gives r e rest) : Left rest := h.1

@[simp] theorem gives_ok_iff {h : Left rest} :
    Gives (.ok (e, ⟨rest, h⟩)) e' rest' ↔ e' = e ∧ rest' = rest := by
  constructor
  · rintro ⟨_, heq⟩
    simpa [eq_comm] using heq
  · rintro ⟨rfl, rfl⟩
    exact ⟨h, rfl⟩

@[simp] theorem gives_pure_iff {h : Left rest} :
    Gives (pure (e, ⟨rest, h⟩)) e' rest' ↔ e' = e ∧ rest' = rest :=
  gives_ok_iff

@[simp] theorem not_gives_error {cause : ExprCause} :
    ¬ Gives (.error cause : Except ExprCause (Expr × { rest // Left rest })) e rest := by
  rintro ⟨_, heq⟩
  cases heq

theorem gives_bind_iff {f : Expr × { rest // Left rest } →
    Except ExprCause (Expr × { rest // Left' rest })} :
    Gives (r >>= f) e rest ↔ ∃ e₁ rest₁, ∃ h : Gives r e₁ rest₁,
      Gives (f (e₁, ⟨rest₁, h.left⟩)) e rest := by
  constructor
  · rintro ⟨h, heq⟩
    cases r with
    | error cause => cases heq
    | ok a => exact ⟨a.1, a.2.1, ⟨a.2.2, rfl⟩, h, heq⟩
  · rintro ⟨e₁, rest₁, ⟨h₁, rfl⟩, hf⟩
    exact hf

end Gives

section Reader

variable {ws rest : List Word} {e : Expr} {n : Nat}

theorem gives_expect_bind_iff {m : Mark} {Left : List Word → Prop}
    {f : { rest : List Word // rest.length < ws.length } →
      Except ExprCause (Expr × { rest // Left rest })} :
    Gives (expect m ws >>= f) e rest ↔ ∃ t after, ∃ h, ws = ⟨.mark m, t⟩ :: after ∧
      Gives (f ⟨after, h⟩) e rest := by
  match ws with
  | [] => simp [expect, bind, Except.bind]
  | ⟨.literal v, t⟩ :: after => simp [expect, bind, Except.bind]
  | ⟨.name n, t⟩ :: after => simp [expect, bind, Except.bind]
  | ⟨.mark m', t⟩ :: after =>
    by_cases hm : m' = m <;> simp [expect, hm, bind, Except.bind]

theorem gives_readUnary_iff : Gives (readUnary ws) e rest ↔
    (∃ v t, ws = ⟨.literal v, t⟩ :: rest ∧ e = .literal v) ∨
    (∃ t t' inner, ws = ⟨.mark .opening, t⟩ :: inner ∧
      Gives (readChoice inner) e (⟨.mark .closing, t'⟩ :: rest)) ∨
    ∃ m op t inner e', ws = ⟨.mark m, t⟩ :: inner ∧ unaryOf? m = some op ∧
      Gives (readUnary inner) e' rest ∧ e = .unary op e' := by
  have hopening : unaryOf? .opening = none := rfl
  match ws with
  | [] => simp [readUnary]
  | ⟨.literal v, t⟩ :: after => simp [readUnary, and_comm, eq_comm]
  | ⟨.name n, t⟩ :: after => simp [readUnary]
  | ⟨.mark m, t⟩ :: after =>
    by_cases hm : m = .opening
    · subst hm
      rw [readUnary]
      simp only [gives_bind_iff, gives_expect_bind_iff, gives_pure_iff]
      simp [hopening]
    · rw [readUnary]
      · split
        · next op hop =>
          simp only [gives_bind_iff, gives_pure_iff]
          simp [hop, hm, and_comm]
        · next hop => simp [hop, hm]
      · exact hm

theorem gives_readStrength_zero_iff :
    Gives (readStrength 0 ws) e rest ↔ Gives (readUnary ws) e rest := by
  rw [readStrength]

theorem gives_readStrength_succ_iff : Gives (readStrength (n + 1) ws) e rest ↔
    ∃ left between, Gives (readStrength n ws) left between ∧
      Gives (readChain n left between) e rest := by
  rw [readStrength]
  simp only [gives_bind_iff, gives_pure_iff]
  simp

/-- An operator of strength `n` stands at the front. -/
def AtOperator (n : Nat) (ws : List Word) : Prop :=
  ∃ m t after, ws = ⟨.mark m, t⟩ :: after ∧ (binaryOf? n m).isSome

theorem gives_readChain_operator_iff {left : Expr} {m : Mark} {op : BinaryOp} {t : Text}
    (hop : binaryOf? n m = some op) : Gives (readChain n left (⟨.mark m, t⟩ :: ws)) e rest ↔
      ∃ right between, Gives (readStrength n ws) right between ∧
        Gives (readChain n (.binary op left right) between) e rest := by
  rw [readChain]
  simp only [hop, gives_bind_iff, gives_pure_iff]
  simp

theorem gives_readChain_iff_of_not {left : Expr} (h : ¬ AtOperator n ws) :
    Gives (readChain n left ws) e rest ↔ e = left ∧ rest = ws := by
  match ws with
  | ⟨.mark m, t⟩ :: after =>
    have hop : binaryOf? n m = none := by
      rw [← Option.not_isSome_iff_eq_none]
      exact fun hsome => h ⟨m, t, after, rfl, hsome⟩
    rw [readChain]
    simp only [hop, gives_pure_iff]
  | ⟨.literal v, t⟩ :: after => rw [readChain] <;> simp
  | ⟨.name m, t⟩ :: after => rw [readChain] <;> simp
  | [] => rw [readChain] <;> simp

theorem gives_readChoice_iff : Gives (readChoice ws) e rest ↔
    (∃ condition yes no t t' after after',
      Gives (readStrength strengths ws) condition (⟨.mark .question, t⟩ :: after) ∧
      Gives (readChoice after) yes (⟨.mark .colon, t'⟩ :: after') ∧
      Gives (readChoice after') no rest ∧ e = .choice condition yes no) ∨
    (Gives (readStrength strengths ws) e rest ∧
      ∀ t after, rest ≠ ⟨.mark .question, t⟩ :: after) := by
  rw [readChoice]
  simp only [gives_bind_iff]
  constructor
  · rintro ⟨condition, between, hcondition, hgives⟩
    split at hgives
    · simp only [gives_bind_iff, gives_expect_bind_iff, gives_pure_iff] at hgives
      obtain ⟨yes, _, hyes, t', after', _, rfl, no, _, hno, rfl, rfl⟩ := hgives
      exact .inl ⟨condition, yes, no, _, t', _, after', hcondition, hyes, hno, rfl⟩
    · next hnot =>
      obtain ⟨rfl, rfl⟩ := gives_pure_iff.1 hgives
      exact .inr ⟨hcondition, fun t after heq =>
        hnot t after (heq ▸ hcondition.left) heq (proof_irrel_heq _ _)⟩
  · rintro (⟨condition, yes, no, t, t', after, after', hcondition, hyes, hno, rfl⟩ | ⟨h, hnot⟩)
    · refine ⟨condition, _, hcondition, ?_⟩
      simp only [gives_bind_iff, gives_expect_bind_iff, gives_pure_iff]
      exact ⟨yes, _, hyes, t', after', Nat.lt_succ_self _, rfl, no, rest, hno, rfl, rfl⟩
    · refine ⟨e, rest, h, ?_⟩
      split
      · exact absurd rfl (hnot _ _)
      · simp

end Reader

/-- The phrase of the operators of a strength and the stronger ones. -/
def Phrase.ofStrength : Nat → Phrase
  | 0 => .unary
  | 1 => .multiplicative
  | 2 => .additive
  | 3 => .comparison
  | 4 => .equality
  | 5 => .and
  | _ => .or

theorem chain?_ofStrength {n : Nat} (h : n < strengths) :
    ∃ ops, (Phrase.ofStrength (n + 1)).chain? = some (Phrase.ofStrength n, ops) ∧
      ∀ m op, (m, op) ∈ ops ↔ binaryOf? n m = some op := by
  unfold strengths at h
  interval_cases n <;> refine ⟨_, rfl, fun m op => ?_⟩ <;> cases m <;>
    simp [binaryOf?, eq_comm]

theorem exists_ofStrength {p q : Phrase} {ops : List (Mark × BinaryOp)}
    (h : p.chain? = some (q, ops)) :
    ∃ n < strengths, p = .ofStrength (n + 1) ∧ q = .ofStrength n ∧
      ∀ m op, (m, op) ∈ ops ↔ binaryOf? n m = some op := by
  have hchain : ∃ n < strengths, p = .ofStrength (n + 1) := by
    cases p with
    | ternary | unary | primary => cases h
    | or => exact ⟨5, by decide, rfl⟩
    | and => exact ⟨4, by decide, rfl⟩
    | equality => exact ⟨3, by decide, rfl⟩
    | comparison => exact ⟨2, by decide, rfl⟩
    | additive => exact ⟨1, by decide, rfl⟩
    | multiplicative => exact ⟨0, by decide, rfl⟩
  obtain ⟨n, hn, rfl⟩ := hchain
  obtain ⟨ops', hchain', hops⟩ := chain?_ofStrength hn
  obtain ⟨rfl, rfl⟩ : Phrase.ofStrength n = q ∧ ops' = ops := by simpa [h] using hchain'.symm
  exact ⟨n, hn, rfl, rfl, hops⟩

theorem mem_signs_iff {m : Mark} {op : UnaryOp} : (m, op) ∈ signs ↔ unaryOf? m = some op := by
  cases m <;> simp [signs, unaryOf?, eq_comm]

theorem binaryOf?_unique {m : Mark} {n k : Nat} {op op' : BinaryOp}
    (h : binaryOf? n m = some op) (h' : binaryOf? k m = some op') : n = k := by
  cases m <;> grind [binaryOf?]

section Sound

/-- Reading `ws` up to `rest` derives `e`, with the symbols `front` before what is read. -/
def DerivesTo (p : Phrase) (front : List Symbol) (ws rest : List Word) (e : Expr) : Prop :=
  ∃ taken, ws = taken ++ rest ∧ Derives p (front ++ taken.map Word.symbol) e

/-- What the parts of the reader take is derived by their phrases. -/
structure Sound (ws : List Word) : Prop where
  unary {e : Expr} {rest : List Word} : Gives (readUnary ws) e rest → DerivesTo .unary [] ws rest e
  strength {n : Nat} {e : Expr} {rest : List Word} : n ≤ strengths →
    Gives (readStrength n ws) e rest → DerivesTo (.ofStrength n) [] ws rest e
  chain {n : Nat} {front : List Symbol} {left e : Expr} {rest : List Word} : n < strengths →
    Derives (.ofStrength (n + 1)) front left → Gives (readChain n left ws) e rest →
    DerivesTo (.ofStrength (n + 1)) front ws rest e
  choice {e : Expr} {rest : List Word} :
    Gives (readChoice ws) e rest → DerivesTo .ternary [] ws rest e

variable {ws rest : List Word} {e : Expr} (ih : ∀ ws', ws'.length < ws.length → Sound ws')
include ih

theorem derivesTo_readUnary (h : Gives (readUnary ws) e rest) : DerivesTo .unary [] ws rest e := by
  obtain ⟨v, t, rfl, rfl⟩ | ⟨t, t', inner, rfl, hinner⟩ |
    ⟨m, op, t, inner, e, rfl, hop, hinner, rfl⟩ := gives_readUnary_iff.1 h
  · exact ⟨[⟨.literal v, t⟩], rfl, .primary (.literal v)⟩
  · obtain ⟨taken, rfl, hderives⟩ := (ih inner (Nat.lt_succ_self _)).choice hinner
    refine ⟨⟨.mark .opening, t⟩ :: (taken ++ [⟨.mark .closing, t'⟩]), by simp, ?_⟩
    simpa using Derives.primary (.parentheses hderives)
  · obtain ⟨taken, rfl, hderives⟩ := (ih inner (Nat.lt_succ_self _)).unary hinner
    exact ⟨⟨.mark m, t⟩ :: taken, rfl, .sign (mem_signs_iff.2 hop) hderives⟩

theorem derivesTo_readChain {n : Nat} {front : List Symbol} {left : Expr} (hn : n < strengths)
    (hleft : Derives (.ofStrength (n + 1)) front left) (h : Gives (readChain n left ws) e rest) :
    DerivesTo (.ofStrength (n + 1)) front ws rest e := by
  by_cases hat : AtOperator n ws
  · obtain ⟨m, t, after, rfl, hsome⟩ := hat
    obtain ⟨op, hop⟩ := Option.isSome_iff_exists.1 hsome
    obtain ⟨right, between, hright, hchain⟩ := (gives_readChain_operator_iff hop).1 h
    have hshorter := Nat.lt_succ_of_lt hright.left
    obtain ⟨taken, rfl, hoperand⟩ := (ih after (Nat.lt_succ_self _)).strength hn.le hright
    obtain ⟨ops, hops, hmem⟩ := chain?_ofStrength hn
    have hleft' := Derives.operator hops ((hmem m op).2 hop) hleft hoperand
    obtain ⟨taken', rfl, hderives⟩ := (ih between hshorter).chain hn hleft' hchain
    exact ⟨⟨.mark m, t⟩ :: (taken ++ taken'), by simp, by simpa using hderives⟩
  · obtain ⟨rfl, rfl⟩ := (gives_readChain_iff_of_not hat).1 h
    exact ⟨[], rfl, by simpa using hleft⟩

theorem derivesTo_readStrength {n : Nat} (hn : n ≤ strengths)
    (h : Gives (readStrength n ws) e rest) : DerivesTo (.ofStrength n) [] ws rest e := by
  induction n generalizing e rest with
  | zero => exact derivesTo_readUnary ih (gives_readStrength_zero_iff.1 h)
  | succ n ihn =>
    obtain ⟨left, between, hleft, hchain⟩ := gives_readStrength_succ_iff.1 h
    have hshorter := hleft.left
    obtain ⟨taken, rfl, hoperand⟩ := ihn (Nat.le_of_succ_le hn) hleft
    obtain ⟨ops, hops, -⟩ := chain?_ofStrength hn
    obtain ⟨taken', rfl, hderives⟩ := (ih between hshorter).chain hn (.operand hops hoperand) hchain
    exact ⟨taken ++ taken', by simp, by simpa using hderives⟩

theorem derivesTo_readChoice (h : Gives (readChoice ws) e rest) :
    DerivesTo .ternary [] ws rest e := by
  obtain ⟨a, b, c, t, t', after, after', ha, hb, hc, rfl⟩ | ⟨ha, -⟩ := gives_readChoice_iff.1 h
  · have hafter := ha.left
    have hafter' := hb.left
    obtain ⟨condition, rfl, hcondition⟩ := derivesTo_readStrength ih le_rfl ha
    simp only [List.length_cons] at hafter hafter'
    obtain ⟨yes, rfl, hyes⟩ := (ih after (by omega)).choice hb
    obtain ⟨no, rfl, hno⟩ := (ih after' (by omega)).choice hc
    refine ⟨condition ++ ⟨.mark .question, t⟩ :: (yes ++ ⟨.mark .colon, t'⟩ :: no), by simp, ?_⟩
    simpa using Derives.choice hcondition hyes hno
  · obtain ⟨taken, rfl, hderives⟩ := derivesTo_readStrength ih le_rfl ha
    exact ⟨taken, rfl, .plain hderives⟩

omit ih in
theorem sound (ws : List Word) : Sound ws := by
  induction hn : ws.length using Nat.strongRecOn generalizing ws with
  | ind n ih =>
    have ih : ∀ ws', ws'.length < ws.length → Sound ws' := fun ws' h => ih _ (hn ▸ h) ws' rfl
    exact ⟨derivesTo_readUnary ih, derivesTo_readStrength ih, derivesTo_readChain ih,
      derivesTo_readChoice ih⟩

end Sound

section Complete

/-- No operator of a strength below `n` stands at the front. -/
def NoOperator (n : Nat) (ws : List Word) : Prop := ∀ k < n, ¬ AtOperator k ws

theorem noOperator_of_binaryOf? {n : Nat} {m : Mark} {op : BinaryOp} {t : Text} {ws : List Word}
    (h : binaryOf? n m = some op) : NoOperator n (⟨.mark m, t⟩ :: ws) := by
  rintro k hk ⟨_, _, _, ⟨⟩, hsome⟩
  obtain ⟨op', hop'⟩ := Option.isSome_iff_exists.1 hsome
  exact hk.ne (binaryOf?_unique hop' h)

/-- Neither an operator between operands nor a choice goes on at the front. -/
def Ended (ws : List Word) : Prop :=
  NoOperator strengths ws ∧ ∀ t after, ws ≠ ⟨.mark .question, t⟩ :: after

theorem ended_nil : Ended [] := by
  refine ⟨?_, by simp⟩
  rintro k - ⟨_, _, _, ⟨⟩, _⟩

theorem noOperator_of_mem {n : Nat} {m : Mark} {t : Text} {ws : List Word}
    (h : m ∈ [.question, .colon, .closing]) : NoOperator n (⟨.mark m, t⟩ :: ws) := by
  rintro k - ⟨_, _, _, ⟨⟩, hsome⟩
  unfold binaryOf? at hsome
  split at hsome <;> simp at h hsome

theorem ended_of_mem {m : Mark} {t : Text} {ws : List Word} (h : m ∈ [.colon, .closing]) :
    Ended (⟨.mark m, t⟩ :: ws) := by
  refine ⟨noOperator_of_mem (List.mem_cons_of_mem _ h), ?_⟩
  rintro _ _ ⟨⟩
  simp at h

/-- The operand is read from the front of `taken`, and the reader goes on with operators behind
it. -/
def GoesOn (taken : List Word) (e : Expr) : Nat → Prop
  | 0 => ∀ rest, Gives (readUnary (taken ++ rest)) e rest
  | n + 1 => ∀ rest e' rest', NoOperator n rest → Gives (readChain n e rest) e' rest' →
    Gives (readStrength (n + 1) (taken ++ rest)) e' rest'

/-- What a phrase derives is read from the front of any words. -/
def Complete (taken : List Word) (e : Expr) : Phrase → Prop
  | .ternary => ∀ rest, Ended rest → Gives (readChoice (taken ++ rest)) e rest
  | .or => GoesOn taken e 6
  | .and => GoesOn taken e 5
  | .equality => GoesOn taken e 4
  | .comparison => GoesOn taken e 3
  | .additive => GoesOn taken e 2
  | .multiplicative => GoesOn taken e 1
  | .unary | .primary => GoesOn taken e 0

variable {taken rest : List Word} {e : Expr} {n : Nat}

theorem complete_ofStrength_iff (hn : n ≤ strengths) :
    Complete taken e (.ofStrength n) ↔ GoesOn taken e n := by
  unfold strengths at hn
  interval_cases n <;> exact Iff.rfl

theorem GoesOn.gives (h : GoesOn taken e n) (hrest : NoOperator n rest) :
    Gives (readStrength n (taken ++ rest)) e rest := by
  cases n with
  | zero => exact gives_readStrength_zero_iff.2 (h rest)
  | succ n =>
    refine h rest e rest (fun k hk => hrest k (Nat.lt_succ_of_lt hk)) ?_
    exact (gives_readChain_iff_of_not (hrest n (Nat.lt_succ_self n))).2 ⟨rfl, rfl⟩

theorem complete_of_derives {p : Phrase} {ss : List Symbol} (h : Derives p ss e)
    (heq : taken.map Word.symbol = ss) : Complete taken e p := by
  induction h generalizing taken with
  | literal v =>
    obtain ⟨⟨_, t⟩, rfl, rfl⟩ := List.map_eq_singleton_iff.1 heq
    exact fun rest => gives_readUnary_iff.2 (.inl ⟨v, t, rfl, rfl⟩)
  | parentheses _ ih =>
    obtain ⟨⟨_, t⟩, _, rfl, rfl, hrest⟩ := List.map_eq_cons_iff.1 heq
    obtain ⟨inner, _, rfl, hinner, hclosing⟩ := List.map_eq_append_iff.1 hrest
    obtain ⟨⟨_, t'⟩, rfl, rfl⟩ := List.map_eq_singleton_iff.1 hclosing
    refine fun rest => gives_readUnary_iff.2 (.inr (.inl ⟨t, t', _, ?_, ih hinner _ ?_⟩))
    · simp
    · exact ended_of_mem (by decide)
  | primary _ ih => exact ih heq
  | sign hmem _ ih =>
    obtain ⟨⟨_, t⟩, inner, rfl, rfl, hinner⟩ := List.map_eq_cons_iff.1 heq
    exact fun rest => gives_readUnary_iff.2 (.inr (.inr
      ⟨_, _, t, _, _, rfl, mem_signs_iff.1 hmem, ih hinner rest, rfl⟩))
  | operand hchain _ ih =>
    obtain ⟨n, hn, rfl, rfl, -⟩ := exists_ofStrength hchain
    have hoperand := (complete_ofStrength_iff hn.le).1 (ih heq)
    refine (complete_ofStrength_iff hn).2 fun rest e' rest' hrest hgives => ?_
    exact gives_readStrength_succ_iff.2 ⟨_, rest, hoperand.gives hrest, hgives⟩
  | operator hchain hmem _ _ ihl ihr =>
    obtain ⟨n, hn, rfl, rfl, hops⟩ := exists_ofStrength hchain
    obtain ⟨left, _, rfl, hleft, hrest⟩ := List.map_eq_append_iff.1 heq
    obtain ⟨⟨_, t⟩, right, rfl, rfl, hright⟩ := List.map_eq_cons_iff.1 hrest
    have hop := (hops _ _).1 hmem
    have hleft := (complete_ofStrength_iff hn).1 (ihl hleft)
    have hright := (complete_ofStrength_iff hn.le).1 (ihr hright)
    refine (complete_ofStrength_iff hn).2 fun rest e' rest' hrest hgives => ?_
    rw [List.append_assoc]
    refine hleft _ _ _ (noOperator_of_binaryOf? hop) ?_
    exact (gives_readChain_operator_iff hop).2 ⟨_, rest, hright.gives hrest, hgives⟩
  | plain _ ih =>
    intro rest hrest
    have hor : GoesOn taken _ strengths := ih heq
    exact gives_readChoice_iff.2 (.inr ⟨hor.gives hrest.1, hrest.2⟩)
  | choice _ _ _ ihc ihy ihn =>
    obtain ⟨condition, _, rfl, hcondition, hchoice⟩ := List.map_eq_append_iff.1 heq
    obtain ⟨⟨_, t⟩, _, rfl, rfl, hbranches⟩ := List.map_eq_cons_iff.1 hchoice
    obtain ⟨yes, _, rfl, hyes, hrest⟩ := List.map_eq_append_iff.1 hbranches
    obtain ⟨⟨_, t'⟩, no, rfl, rfl, hno⟩ := List.map_eq_cons_iff.1 hrest
    intro rest hrest
    have hor : GoesOn condition _ strengths := ihc hcondition
    refine gives_readChoice_iff.2 (.inl ⟨_, _, _, t, t', _, _, ?_,
      ihy hyes _ (ended_of_mem (by decide)), ihn hno rest hrest, rfl⟩)
    have hmark : NoOperator strengths (⟨.mark .question, t⟩ ::
        (yes ++ ⟨.mark .colon, t'⟩ :: (no ++ rest))) := noOperator_of_mem (by decide)
    rw [List.append_assoc, List.cons_append, List.append_assoc, List.cons_append]
    exact hor.gives hmark

end Complete

theorem ofWords_eq_ok_iff {ws : List Word} {e : Expr} :
    ofWords ws = .ok e ↔ Gives (readChoice ws) e [] := by
  unfold ofWords
  cases readChoice ws with
  | error cause => simp [bind, Except.bind]
  | ok a =>
    obtain ⟨e', rest, h⟩ := a
    cases rest <;> simp [bind, Except.bind, pure, Except.pure, eq_comm]

/-- Words are read as the tree that the grammar derives for them. -/
theorem ofWords_eq_ok_iff_derives {ws : List Word} {e : Expr} :
    ofWords ws = .ok e ↔ Derives .ternary (ws.map Word.symbol) e := by
  rw [ofWords_eq_ok_iff]
  constructor
  · intro h
    obtain ⟨taken, rfl, hderives⟩ := (sound ws).choice h
    simpa using hderives
  · intro h
    have hgives := complete_of_derives h rfl [] ended_nil
    rwa [List.append_nil] at hgives

end Expr

theorem calculate_eq_ok_iff_derives {source : Text} {ws : List Expr.Word} {v : Value}
    (h : Expr.words source = .ok ws) :
    calculate source = .ok v ↔
      ∃ e, Expr.Derives .ternary (ws.map Expr.Word.symbol) e ∧ e.value = v := by
  simp only [← Expr.ofWords_eq_ok_iff_derives, calculate, h]
  simp only [bind, Except.bind, pure, Except.pure]
  cases Expr.ofWords ws <;> simp

/-- A source has a value exactly if the grammar derives its symbols, namely that of the only tree,
whatever the literals are; reckoning while reading gives the same. -/
theorem calculate_eq_ok_iff {source : Text} {ws : List Expr.Word} (h : Expr.words source = .ok ws) :
    (∀ v, calculate source = .ok v ↔ (∀ n, .name n ∉ ws.map Expr.Word.symbol) ∧
      ∃ e, Expr.Derives .ternary (ws.map Expr.Word.symbol) e ∧ e.value = v) ∧
    (∀ e e', Expr.Derives .ternary (ws.map Expr.Word.symbol) e →
      Expr.Derives .ternary (ws.map Expr.Word.symbol) e' → e = e') ∧
    (∀ source' ws', Expr.words source' = .ok ws' →
      ws'.map (·.symbol.terminal) = ws.map (·.symbol.terminal) →
      ((∃ v, calculate source' = .ok v) ↔ ∃ v, calculate source = .ok v)) ∧
    ∀ steps, 2 * ws.length + 1 < steps → Reckoner.run steps source = some (calculate source) := by
  refine ⟨fun v => ?_, fun e e' he he' => ?_, fun source' ws' h' heq => ?_,
    fun steps hsteps => Reckoner.run_eq_calculate h hsteps⟩
  · rw [calculate_eq_ok_iff_derives h, iff_and_self]
    rintro ⟨e, hderives, -⟩
    exact hderives.name_notMem
  · rw [← Expr.ofWords_eq_ok_iff_derives] at he he'
    exact Except.ok.inj (he.symm.trans he')
  · have hacc : ∀ {source ws}, Expr.words source = .ok ws → ((∃ v, calculate source = .ok v) ↔
        ∃ e, Expr.Derives .ternary (ws.map Expr.Word.symbol) e) := by
      intro source ws h
      simp only [calculate_eq_ok_iff_derives h]
      simp
    have hmap : (ws'.map Expr.Word.symbol).map Expr.Symbol.terminal =
        (ws.map Expr.Word.symbol).map Expr.Symbol.terminal := by
      simpa [Function.comp_def] using heq
    rw [hacc h, hacc h']
    exact ⟨fun ⟨e, he⟩ => he.of_terminals_eq hmap.symm, fun ⟨e, he⟩ => he.of_terminals_eq hmap⟩

/-- `&&` is the stronger operator. -/
theorem calculate_eq_ok_iff_strength :
    ∃ ws, Expr.words "'a' || 'b' && ''".toList = .ok ws ∧
      calculate "'a' || 'b' && ''".toList = .ok (.text "a".toList) := by
  have hwords : Expr.words "'a' || 'b' && ''".toList = .ok
      [⟨.literal (.text ['a']), "'a'".toList⟩, ⟨.mark .or, "||".toList⟩,
        ⟨.literal (.text ['b']), "'b'".toList⟩, ⟨.mark .and, "&&".toList⟩,
        ⟨.literal (.text []), "''".toList⟩] := by
    cbv
  have hliteral : ∀ t, Expr.Derives .equality [.literal (.text t)] (.literal (.text t)) := fun t =>
    .operand rfl (.operand rfl (.operand rfl (.operand rfl (.primary (.literal _)))))
  have hand : Expr.Derives .and _ (.binary .and _ _) :=
    .operator rfl (List.mem_singleton.2 rfl) (.operand rfl (hliteral ['b'])) (hliteral [])
  have hor : Expr.Derives .or _ (.binary .or _ _) :=
    .operator rfl (List.mem_singleton.2 rfl)
      (.operand rfl (.operand rfl (hliteral ['a']))) hand
  have hvalue : (Expr.binary .or (.literal (.text ['a'])) (.binary .and (.literal (.text ['b']))
      (.literal (.text [])))).value = .text "a".toList := by
    simp [Expr.value, BinaryOp.apply, Value.truthy]
  exact ⟨_, hwords, ((calculate_eq_ok_iff hwords).1 _).2 ⟨by simp, _, .plain hor, hvalue⟩⟩

end Stencil
