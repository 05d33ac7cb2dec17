import Stencil.Token.Lexer

/-! A scanner that goes over a template one character at a time and counts rows and columns on its
way. A slice is scanned as a text of its own, which begins in row and column zero; the places in it
are then shifted to where the slice stands. -/
namespace Stencil

/-- The place in the whole of a place in a slice that begins at `base`. -/
def Position.shift (base p : Position) : Position :=
  ⟨p.row + base.row, if p.row = 0 then p.col + base.col else p.col⟩

/-- What scanning ends with; `none` where the steps allowed are used up. -/
abbrev Scanning := ExceptT (Fault LexCause) Option

/-- A text, the place that a scanner has come to in it, and its tokens so far. -/
structure Scanner where
  input : Text
  index : Nat
  row : Nat
  col : Nat
  tokens : List Token

namespace Scanner

/-- The scanner at the beginning of a text. -/
def start (input : Text) : Scanner := ⟨input, 0, 0, 0, []⟩

section

variable (s : Scanner)

def position : Position := ⟨s.row, s.col⟩

def atEnd : Bool := s.input.length ≤ s.index

/-- How many characters are ahead. -/
def left : Nat := s.input.length - s.index

/-- The text ahead. -/
def rest : Text := s.input.drop s.index

def isAt (mark : Text) : Bool := mark.startsAt s.rest

/-- The text passed since the scanner was at `index`. -/
def since (index : Nat) : Text := (s.input.take s.index).drop index

/-- The scanner one character later. -/
def advance : Scanner :=
  match s.rest with
  | [] => s
  | c :: _ =>
    if c = '\n' then { s with index := s.index + 1, row := s.row + 1, col := 0 }
    else { s with index := s.index + 1, col := s.col + 1 }

/-- The scanner as many characters later as `text` has. -/
def advanceOver (text : Text) : Scanner := text.foldl (fun s _ => s.advance) s

def push (kind : TokenKind) (text : Text) (p : Position) : Scanner :=
  { s with tokens := s.tokens ++ [⟨kind, text, p⟩] }

def extend (tokens : List Token) : Scanner := { s with tokens := s.tokens ++ tokens }

/-- Passes a mark that must be here. -/
def consume (mark : Text) : Scanning Scanner :=
  if s.isAt mark then pure (s.advanceOver mark)
  else throw ⟨.expected mark (s.rest.take mark.length), s.position⟩

/-- Makes a token of a mark that must be here. -/
def pushMark (kind : TokenKind) (mark : Text) : Scanning Scanner := do
  return (← s.consume mark).push kind mark s.position

end

theorem left_advance {s : Scanner} (h : s.atEnd = false) : s.advance.left < s.left := by
  have hlt : s.index < s.input.length := by simpa [atEnd] using h
  have hrest : s.rest = s.input[s.index] :: s.input.drop (s.index + 1) :=
    List.drop_eq_getElem_cons hlt
  have hindex : s.advance.index = s.index + 1 ∧ s.advance.input = s.input := by
    unfold advance
    rw [hrest]
    dsimp only
    split <;> exact ⟨rfl, rfl⟩
  rw [left, left, hindex.1, hindex.2]
  omega

theorem left_advance_le (s : Scanner) : s.advance.left ≤ s.left := by
  cases h : s.atEnd with
  | false => exact Nat.le_of_lt (left_advance h)
  | true =>
    have hrest : s.rest = [] := List.drop_eq_nil_of_le (by simpa [atEnd] using h)
    have hsame : s.advance = s := by
      rw [advance, hrest]
    exact Nat.le_of_eq (congrArg left hsame)

theorem left_advanceOver_le (s : Scanner) (text : Text) :
    (s.advanceOver text).left ≤ s.left := by
  induction text generalizing s with
  | nil => exact Nat.le_refl _
  | cons c text ih => exact Nat.le_trans (ih s.advance) s.left_advance_le

theorem left_advanceOver {s : Scanner} {text : Text} (h : s.atEnd = false) (ht : text ≠ []) :
    (s.advanceOver text).left < s.left := by
  obtain ⟨c, text, rfl⟩ := List.exists_cons_of_ne_nil ht
  exact Nat.lt_of_le_of_lt (left_advanceOver_le s.advance text) (left_advance h)

theorem ne_nil_of_isAt {s : Scanner} {mark : Text} (h : s.isAt mark = true) : mark ≠ [] :=
  (Text.startsAt_iff.1 h).1

/-- Advances to the first place where `stop` holds of the text ahead, or to the end. -/
def advanceUntil (stop : Text → Bool) (s : Scanner) : Scanner :=
  if s.atEnd || stop s.rest then s else advanceUntil stop s.advance
termination_by s.left
decreasing_by exact left_advance (by simp_all)

theorem left_advanceUntil_le (stop : Text → Bool) (s : Scanner) :
    (s.advanceUntil stop).left ≤ s.left := by
  fun_induction advanceUntil stop s with
  | case1 => exact Nat.le_refl _
  | case2 s _ ih => exact Nat.le_trans ih s.left_advance_le

/-- What comes of a slice that begins at `base`, shifted to where it stands. -/
def nested (scan : Text → Scanning (List Token)) (slice : Text) (base : Position) :
    Scanning (List Token) := do
  let tokens ← ExceptT.adapt (fun fault => { fault with position := base.shift fault.position })
    (scan slice)
  return tokens.map fun t => { t with position := base.shift t.position }

section

variable (d : Delimiters)

/-- Passes literal text. -/
def passRaw (s : Scanner) : Scanner :=
  if s.atEnd || d.atCommand s.rest || s.isAt d.evalStart then s
  else if d.atDoubled s.rest then passRaw (s.advanceOver (d.escape ++ d.escape))
  else passRaw s.advance
termination_by s.left
decreasing_by
  · refine left_advanceOver (by simp_all) ?_
    have hescape : d.escape.startsAt s.rest = true := by simp_all [Delimiters.atDoubled]
    simp [(Text.startsAt_iff.1 hescape).1]
  · exact left_advance (by simp_all)

/-- Passes the value of a parameter, in which `depth` arguments are open. -/
def passValue (depth : Nat) (s : Scanner) : Scanner :=
  if s.atEnd then s
  else if s.isAt d.argStart then passValue (depth + 1) (s.advanceOver d.argStart)
  else if 0 < depth && s.isAt d.argEnd then passValue (depth - 1) (s.advanceOver d.argEnd)
  else if depth = 0 && (s.isAt d.paramSep || s.isAt d.paramEnd) then s
  else passValue depth s.advance
termination_by s.left
decreasing_by
  · exact left_advanceOver (by simp_all) (ne_nil_of_isAt (by assumption))
  · have hat : 0 < depth ∧ s.isAt d.argEnd = true := by simp_all
    exact left_advanceOver (by simp_all) (ne_nil_of_isAt hat.2)
  · exact left_advance (by simp_all)

/-- Where the argument ends of which `depth` ends are missing, if it is closed. -/
def passArgument (depth : Nat) (s : Scanner) : Option Scanner :=
  if s.atEnd then none
  else if s.isAt d.argStart then passArgument (depth + 1) (s.advanceOver d.argStart)
  else if s.isAt d.argEnd then
    if depth - 1 = 0 then some s else passArgument (depth - 1) (s.advanceOver d.argEnd)
  else if s.isAt d.escape then
    passArgument depth ((s.advanceOver d.escape).advanceUntil fun r =>
      d.argStart.startsAt r || d.argEnd.startsAt r || d.escape.startsAt r)
  else passArgument depth s.advance
termination_by s.left
decreasing_by
  · exact left_advanceOver (by simp_all) (ne_nil_of_isAt (by assumption))
  · exact left_advanceOver (by simp_all) (ne_nil_of_isAt (by assumption))
  · exact Nat.lt_of_le_of_lt (left_advanceUntil_le _ _)
      (left_advanceOver (by simp_all) (ne_nil_of_isAt (by assumption)))
  · exact left_advance (by simp_all)

def raw (s : Scanner) : Scanner :=
  let passed := passRaw d s
  passed.push .raw (passed.since s.index) s.position

def expression (s : Scanner) : Scanning Scanner :=
  let inside := (s.advanceOver d.evalStart).advanceUntil d.evalEnd.startsAt
  if inside.atEnd then throw ⟨.unterminated, s.position⟩
  else
    let passed := inside.advanceOver d.evalEnd
    return passed.push .expression (passed.since s.index) s.position

-- Below, slices are scanned by `scan`.
variable (scan : Text → Scanning (List Token))

def argument (s : Scanner) : Scanning Scanner := do
  let opened ← s.pushMark .argStart d.argStart
  match passArgument d 1 opened with
  | none => throw ⟨.unbalanced, s.position⟩
  | some closing =>
    let tokens ← nested scan (closing.since opened.index) opened.position
    (closing.extend tokens).pushMark .argEnd d.argEnd

/-- Scans arguments, as many as follow. -/
def arguments : Nat → Scanner → Scanning Scanner
  | 0, _ => none
  | steps + 1, s => do
    if s.isAt d.argStart then arguments steps (← argument d scan s) else pure s

/-- Scans the value of a parameter, if one is assigned. -/
def value (s : Scanner) : Scanning Scanner := do
  if s.isAt d.paramAssign then
    let assigned ← s.pushMark .paramAssign d.paramAssign
    let passed := passValue d 0 assigned
    let tokens ← nested scan (passed.since assigned.index) assigned.position
    pure (passed.extend tokens)
  else pure s

def param (s : Scanner) : Scanning Scanner := do
  let passed := s.advanceUntil fun r =>
    d.paramAssign.startsAt r || d.paramSep.startsAt r || d.paramEnd.startsAt r
  let valued ← value d scan (passed.push .paramKey (passed.since s.index) s.position)
  if valued.isAt d.paramSep then valued.pushMark .paramSep d.paramSep else pure valued

/-- Scans parameters and the end of their list. -/
def params : Nat → Scanner → Scanning Scanner
  | 0, _ => none
  | steps + 1, s => do
    if s.atEnd || s.isAt d.paramEnd then s.pushMark .paramEnd d.paramEnd
    else params steps (← param d scan s)

def paramList (steps : Nat) (s : Scanner) : Scanning Scanner := do
  if s.isAt d.paramStart then params d scan steps (← s.pushMark .paramStart d.paramStart)
  else pure s

def command (steps : Nat) (s : Scanner) : Scanning Scanner := do
  let escaped ← s.pushMark .escape d.escape
  let passed := escaped.advanceUntil fun r =>
    d.paramStart.startsAt r || d.argStart.startsAt r || Delimiters.atGap r
  let named := passed.push .commandName (passed.since escaped.index) escaped.position
  arguments d scan steps (← paramList d scan steps named)

end

/-- Scans to the end of the text. -/
def toEnd (d : Delimiters) : Nat → Scanner → Scanning Scanner
  | 0, _ => none
  | steps + 1, s => do
    if s.atEnd then pure s
    else if d.atCommand s.rest then
      toEnd d steps (← command d (fun t => tokens <$> toEnd d steps (start t)) steps s)
    else if s.isAt d.evalStart then toEnd d steps (← expression d s)
    else toEnd d steps (raw d s)

/-- The tokens of a text. -/
def run (d : Delimiters) (steps : Nat) (t : Text) : Scanning (List Token) :=
  tokens <$> toEnd d steps (start t)

end Scanner
end Stencil
