import Stencil.Text

/-! Blank characters, those with the Unicode property White_Space, and trimming. -/
namespace Stencil

/-- The code points with the property White_Space. -/
def blankPoints : List Nat :=
  [0x09, 0x0A, 0x0B, 0x0C, 0x0D, 0x20, 0x85, 0xA0, 0x1680, 0x2000, 0x2001, 0x2002, 0x2003, 0x2004,
    0x2005, 0x2006, 0x2007, 0x2008, 0x2009, 0x200A, 0x2028, 0x2029, 0x202F, 0x205F, 0x3000]

/-- Whether `c` is blank. -/
def isBlank (c : Char) : Bool := blankPoints.contains c.toNat

/-- Every character that core counts as whitespace is blank. -/
theorem isBlank_of_isWhitespace {c : Char} (h : c.isWhitespace = true) : isBlank c = true := by
  simp only [Char.isWhitespace, Bool.or_eq_true, decide_eq_true_eq] at h
  rcases h with ((h | h) | h) | h <;> subst h <;> decide

namespace Text

/-- Drops the blanks at the front of `t`. -/
def trimFront (t : Text) : Text := t.dropWhile isBlank

/-- Drops the blanks at both ends of `t`. -/
def trim (t : Text) : Text := (t.trimFront.reverse.dropWhile isBlank).reverse

/-- Whether `t` holds blanks only. -/
def blank (t : Text) : Bool := t.all isBlank

end Text
end Stencil
