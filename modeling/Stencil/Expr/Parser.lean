import Stencil.Expr.Lexer

/-! Reading words as an expression: operators of one strength are taken from the left, those of a
greater strength first, and the choice between two expressions is the loosest. -/
namespace Stencil
namespace Expr

/-- The binary operator of a mark, if it has the given strength; the strongest has the least. -/
def binaryOf? (strength : Nat) (m : Mark) : Option BinaryOp :=
  match strength, m with
  | 0, .star => some .mul
  | 0, .slash => some .div
  | 0, .percent => some .rem
  | 1, .plus => some .add
  | 1, .minus => some .sub
  | 2, .lt => some .lt
  | 2, .le => some .le
  | 2, .gt => some .gt
  | 2, .ge => some .ge
  | 3, .eq => some .eq
  | 3, .ne => some .ne
  | 3, .strictEq => some .strictEq
  | 3, .strictNe => some .strictNe
  | 4, .and => some .and
  | 5, .or => some .or
  | _, _ => none

/-- How many strengths of binary operators there are. -/
def strengths : Nat := 6

def unaryOf? : Mark → Option UnaryOp
  | .minus => some .minus
  | .plus => some .plus
  | .not => some .not
  | _ => none

/-- An expression read from the front of `ws`, and the words after it, which are fewer. -/
abbrev Read (ws : List Word) : Type :=
  Except ExprCause (Expr × { rest : List Word // rest.length < ws.length })

/-- The words after a mark that must stand at the front. -/
def expect (m : Mark) (ws : List Word) :
    Except ExprCause { rest : List Word // rest.length < ws.length } :=
  match ws with
  | [] => .error .unexpectedEnd
  | w :: rest =>
    match w.symbol with
    | .mark m' => if m' = m then .ok ⟨rest, by simp⟩ else .error (.unexpected w.text)
    | _ => .error (.unexpected w.text)

mutual

/-- A choice, or an expression of binary operators. -/
def readChoice (ws : List Word) : Read ws := do
  let (condition, ⟨rest, h⟩) ← readStrength strengths ws
  match rest, h with
  | ⟨.mark .question, _⟩ :: after, h => do
    have h₀ : after.length < ws.length := Nat.lt_of_succ_lt h
    let (yes, ⟨rest₁, h₁⟩) ← readChoice after
    let ⟨rest₂, h₂⟩ ← expect .colon rest₁
    have h₂₀ : rest₂.length < ws.length := Nat.lt_trans h₂ (Nat.lt_trans h₁ h₀)
    let (no, ⟨rest₃, h₃⟩) ← readChoice rest₂
    pure (.choice condition yes no, ⟨rest₃, Nat.lt_trans h₃ h₂₀⟩)
  | rest, h => pure (condition, ⟨rest, h⟩)
termination_by (ws.length, strengths + 2)

/-- An expression of operators stronger than `n`. -/
def readStrength (n : Nat) (ws : List Word) : Read ws :=
  match n with
  | 0 => readUnary ws
  | n + 1 => do
    let (left, ⟨rest, h⟩) ← readStrength n ws
    let (e, ⟨rest₁, h₁⟩) ← readChain n left rest
    pure (e, ⟨rest₁, Nat.lt_of_le_of_lt h₁ h⟩)
termination_by (ws.length, n + 1)

/-- Operators of strength `n` and their right sides, to the right of `left`. -/
def readChain (n : Nat) (left : Expr) (ws : List Word) :
    Except ExprCause (Expr × { rest : List Word // rest.length ≤ ws.length }) :=
  match ws with
  | ⟨.mark m, text⟩ :: rest =>
    match binaryOf? n m with
    | some op => do
      let (right, ⟨rest₁, h₁⟩) ← readStrength n rest
      let (e, ⟨rest₂, h₂⟩) ← readChain n (.binary op left right) rest₁
      pure (e, ⟨rest₂, Nat.le_of_lt (Nat.lt_succ_of_lt (Nat.lt_of_le_of_lt h₂ h₁))⟩)
    | none => pure (left, ⟨⟨.mark m, text⟩ :: rest, by simp⟩)
  | ws => pure (left, ⟨ws, by simp⟩)
termination_by (ws.length, 0)

/-- A literal, an expression in parentheses, or either after unary operators. No name has a
value. -/
def readUnary (ws : List Word) : Read ws :=
  match ws with
  | [] => .error .unexpectedEnd
  | ⟨.literal v, _⟩ :: rest => .ok (.literal v, ⟨rest, by simp⟩)
  | ⟨.name n, _⟩ :: _ => .error (.undefined n)
  | ⟨.mark .opening, _⟩ :: rest => do
    let (e, ⟨rest₁, h₁⟩) ← readChoice rest
    let ⟨rest₂, h₂⟩ ← expect .closing rest₁
    pure (e, ⟨rest₂, Nat.lt_succ_of_lt (Nat.lt_trans h₂ h₁)⟩)
  | ⟨.mark m, text⟩ :: rest =>
    match unaryOf? m with
    | some op => do
      let (e, ⟨rest₁, h₁⟩) ← readUnary rest
      pure (.unary op e, ⟨rest₁, Nat.lt_succ_of_lt h₁⟩)
    | none => .error (.unexpected text)
termination_by (ws.length, 0)

end

/-- The expression that all the words make up. -/
def ofWords (ws : List Word) : Except ExprCause Expr := do
  let (e, ⟨rest, _⟩) ← readChoice ws
  match rest with
  | [] => pure e
  | w :: _ => .error (.unexpected w.text)

end Expr

/-- The value of the source of an expression. -/
def calculate (source : Text) : Except ExprCause Value := do
  let e ← Expr.ofWords (← Expr.words source)
  pure e.value

end Stencil
