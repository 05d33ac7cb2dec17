import Stencil.Text

/-! Patterns of the shell, in which some characters stand for others. -/
namespace Stencil.Shell

/-- A character of a pattern. One that is live may stand for others. -/
structure Glyph where
  char : Char
  live : Bool
  deriving DecidableEq, Repr

/-- What stands for characters. -/
inductive Sign where
  | char (c : Char)
  | one
  | many
  /-- A character in one of the ranges, or in none of them. -/
  | among (negated : Bool) (ranges : List (Char × Char))
  deriving DecidableEq, Repr

abbrev Pattern := List Sign

namespace Sign

/-- Whether the sign may stand for a character. -/
def admits (c : Char) : Sign → Bool
  | char k => c = k
  | one => true
  | many => true
  | among negated ranges => ranges.any (fun (low, high) => low ≤ c && c ≤ high) ≠ negated

end Sign

namespace Pattern

/-- The ranges of classes of characters that have a name. -/
def classRanges : List (String × List (Char × Char)) :=
  [("alpha", [('a', 'z'), ('A', 'Z')]), ("digit", [('0', '9')]),
    ("alnum", [('a', 'z'), ('A', 'Z'), ('0', '9')]), ("upper", [('A', 'Z')]),
    ("lower", [('a', 'z')]), ("space", [('\t', '\x0d'), (' ', ' ')]),
    ("blank", [(' ', ' '), ('\t', '\t')]), ("punct", [('!', '/'), (':', '@'), ('[', '\x60'),
    ('\x7b', '~')]), ("print", [(' ', '~')]), ("graph", [('!', '~')]),
    ("cntrl", [('\x00', '\x1f'), ('\x7f', '\x7f')]),
    ("xdigit", [('0', '9'), ('a', 'f'), ('A', 'F')])]

/-- The class whose name stands between `[:` and `:]` at the front, after its opening bracket. -/
def class? (t : Text) : Option (List (Char × Char) × Nat) :=
  match t with
  | ':' :: r =>
    let name := r.takeWhile Char.isAlpha
    match r.drop name.length with
    | ':' :: ']' :: _ =>
      ((classRanges.find? fun (n, _) => n.toList = name).map fun (_, ranges) =>
        (ranges, name.length + 3))
    | _ => none
  | _ => none

/-- The ranges in brackets, of which at least one must stand there, and the glyphs after them. -/
def ranges? : Nat → Bool → List Glyph → Option (List (Char × Char) × List Glyph)
  | 0, _, _ | _, _, [] => none
  | n + 1, first, ⟨']', true⟩ :: r =>
    if first then (ranges? n false r).map fun (rs, rest) => ((']', ']') :: rs, rest)
    else some ([], r)
  | n + 1, _, ⟨'[', live⟩ :: r =>
    match if live then class? (r.map Glyph.char) else none with
    | some (rs, size) => (ranges? n false (r.drop size)).map fun (more, rest) => (rs ++ more, rest)
    | none => (ranges? n false r).map fun (rs, rest) => (('[', '[') :: rs, rest)
  | n + 1, _, ⟨'\\', true⟩ :: g :: r =>
    (ranges? n false r).map fun (rs, rest) => ((g.char, g.char) :: rs, rest)
  | n + 1, _, g :: ⟨'-', true⟩ :: h :: r =>
    if h = ⟨']', true⟩ then
      (ranges? n false (h :: r)).map fun (rs, rest) =>
        ((g.char, g.char) :: ('-', '-') :: rs, rest)
    else (ranges? n false r).map fun (rs, rest) => ((g.char, h.char) :: rs, rest)
  | n + 1, _, g :: r =>
    (ranges? n false r).map fun (rs, rest) => ((g.char, g.char) :: rs, rest)

/-- The pattern that glyphs write, as many of them as are allowed. A bracket that is not closed
stands for itself. -/
def ofGlyphs : Nat → List Glyph → Pattern
  | 0, _ | _, [] => []
  | n + 1, ⟨'*', true⟩ :: r => .many :: ofGlyphs n r
  | n + 1, ⟨'?', true⟩ :: r => .one :: ofGlyphs n r
  | n + 1, ⟨'[', true⟩ :: r =>
    let (negated, inner) := match r with
      | ⟨'!', true⟩ :: r => (true, r)
      | r => (false, r)
    match ranges? (inner.length + 1) true inner with
    | some (ranges, rest) => .among negated ranges :: ofGlyphs n rest
    | none => .char '[' :: ofGlyphs n r
  | n + 1, ⟨'\\', true⟩ :: g :: r => .char g.char :: ofGlyphs n r
  | n + 1, g :: r => .char g.char :: ofGlyphs n r

def ofList (gs : List Glyph) : Pattern := ofGlyphs gs.length gs

/-- Whether a pattern stands for a text. -/
def fits (p : Pattern) (t : Text) : Bool :=
  match p, t with
  | [], t => t.isEmpty
  | .many :: p, [] => fits p []
  | .many :: p, c :: r => fits p (c :: r) || fits (.many :: p) r
  | s :: p, c :: r => s.admits c && fits p r
  | _ :: _, [] => false
termination_by p.length + t.length

/-- Whether a pattern stands for a name; a point at the front of one is stood for by itself
alone. -/
def fitsName (p : Pattern) (name : Text) : Bool :=
  (name.head? ≠ some '.' || p.head? = some (.char '.')) && p.fits name

/-- What is left of a text without the front that a pattern stands for, the shortest or the
longest. -/
def cutFront (p : Pattern) (longest : Bool) (t : Text) : Text :=
  let sizes := List.range (t.length + 1)
  match (if longest then sizes.reverse else sizes).find? fun n => p.fits (t.take n) with
  | some n => t.drop n
  | none => t

/-- What is left of a text without the back that a pattern stands for, the shortest or the
longest. -/
def cutBack (p : Pattern) (longest : Bool) (t : Text) : Text :=
  let sizes := List.range (t.length + 1)
  match (if longest then sizes else sizes.reverse).find? fun n => p.fits (t.drop n) with
  | some n => t.take n
  | none => t

/-- Whether a glyph lets a word stand for names of files. -/
def isActive (g : Glyph) : Bool := g.live && (g.char = '*' || g.char = '?' || g.char = '[')

end Pattern
end Stencil.Shell
