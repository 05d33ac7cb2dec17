import Stencil.Text

/-! Variables in the source of an expression. The source is passed once from its front to its end:
where a reference begins, the text of the variable takes its place. -/
namespace Stencil

namespace Reference

/-- The mark that a reference may have, and must have inside quotes. -/
def sigil : Char := '$'

def isNameStart (c : Char) : Bool := c.isAlpha || c = '_'

def isNameChar (c : Char) : Bool := c.isAlphanum || c = '_'

def isQuote (c : Char) : Bool := c = '"' || c = '\''

/-- Which quote is open after the character `c`. -/
def quoteAfter (quote : Option Char) (c : Char) : Option Char :=
  match quote with
  | some q => if c = q then none else some q
  | none => if isQuote c then some c else none

/-- Whether a backslash in quotes protects the character after it: `c` goes on with `r`. -/
def protects (quote : Option Char) (c : Char) (r : Text) : Bool :=
  quote.isSome && c = '\\' && !r.isEmpty

/-- Whether a reference begins with `c` and goes on with `r`. -/
def begins (quote : Option Char) (c : Char) (r : Text) : Bool :=
  if c = sigil then r.head?.any isNameStart else isNameStart c && quote.isNone

/-- The name that a reference refers to, which begins with `c` and goes on with `r`. -/
def nameAt (c : Char) (r : Text) : Text :=
  if c = sigil then r.takeWhile isNameChar else c :: r.takeWhile isNameChar

end Reference

open Reference

/-- The source of an expression from a place on, with its references filled in. At the place `quote`
is open, and `inWord` says whether the character before belongs to names: no reference begins inside
a word. A name without a value is left as it is. -/
def substituteFrom (value? : Text → Option Text) (quote : Option Char) (inWord : Bool)
    (t : Text) : Text :=
  match t with
  | [] => []
  | c :: r =>
    if protects quote c r then
      c :: r.take 1 ++ substituteFrom value? quote (r.head?.any isNameChar) (r.drop 1)
    else
      let open? := quoteAfter quote c
      if begins open? c r && !inWord then
        (value? (nameAt c r)).getD (c :: r.takeWhile isNameChar) ++
          substituteFrom value? open? true (r.dropWhile isNameChar)
      else c :: substituteFrom value? open? (isNameChar c) r
termination_by t.length
decreasing_by
  · simp only [List.length_cons, List.length_drop]; omega
  · have := (List.dropWhile_sublist isNameChar (l := r)).length_le
    simp only [List.length_cons]; omega
  · simp

/-- The source of an expression with its references filled in. -/
def substitute (value? : Text → Option Text) (source : Text) : Text :=
  substituteFrom value? none false source

end Stencil
