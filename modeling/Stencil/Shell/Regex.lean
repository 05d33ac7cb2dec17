import Stencil.Shell.Arithmetic
import Stencil.Shell.Pattern

/-! Regular expressions in the basic and the extended syntax. Of the matches that begin first, the
longest one counts. -/
namespace Stencil.Shell

/-- A regular expression. -/
inductive Regex where
  | empty
  /-- A character in one of the ranges, or in none of them. -/
  | one (negated : Bool) (ranges : List (Char × Char))
  | front
  | back
  /-- A place between a character of a word and another one, or any other place. -/
  | edge (inside : Bool)
  /-- A place where a word begins or ends. -/
  | wordFront
  | wordBack
  /-- A place with no character of a word before it, or after it. -/
  | apart (before : Bool)
  | group (number : Nat) (r : Regex)
  | sequence (a b : Regex)
  | either (a b : Regex)
  | repetition (r : Regex) (low : Nat) (high : Option Nat)
  /-- What a group has matched. -/
  | reference (number : Nat)
  deriving Repr

namespace Regex

/-! ### Matching -/

/-- Where groups have matched: numbers with the places where a match begins and ends. -/
abbrev Groups := List (Nat × Nat × Nat)

/-- What is searched: characters, whether the case of letters counts, and whether every line in the
text has a front and a back of its own. -/
structure Subject where
  chars : Array Char
  fold : Bool
  manyLines : Bool

def isWordChar (c : Char) : Bool := c.isAlphanum || c = '_'

def isWordAt (s : Subject) (i : Nat) : Bool := s.chars[i]?.any isWordChar

/-- Whether a word stands before a place. -/
def isWordBefore (s : Subject) (i : Nat) : Bool := i ≠ 0 && isWordAt s (i - 1)

def sameChar (s : Subject) (a b : Char) : Bool := a = b || (s.fold && a.toLower = b.toLower)

def admits (s : Subject) (negated : Bool) (ranges : List (Char × Char)) (c : Char) : Bool :=
  let has (c : Char) : Bool := ranges.any fun (a, b) => a ≤ c && c ≤ b
  (has c || s.fold && (has c.toLower || has c.toUpper)) ≠ negated

/-- The matches that begin at a place, given what follows them. The one that follows longest is
taken of two. -/
def walk (s : Subject) : Nat → Regex → Nat → Groups →
    (Nat → Groups → Option (Nat × Groups)) → Option (Nat × Groups)
  | 0, _, _, _, _ => none
  | n + 1, r, i, gs, k =>
    let better (a b : Option (Nat × Groups)) : Option (Nat × Groups) :=
      match a, b with
      | some (x, g), some (y, h) => if x < y then some (y, h) else some (x, g)
      | none, b => b
      | a, none => a
    match r with
    | empty => k i gs
    | one negated ranges =>
      match s.chars[i]? with
      | some c => if admits s negated ranges c then k (i + 1) gs else none
      | none => none
    | front => if i = 0 || s.manyLines && s.chars[i - 1]? = some '\n' then k i gs else none
    | back => if i = s.chars.size || s.manyLines && s.chars[i]? = some '\n' then k i gs else none
    | edge inside => if (isWordBefore s i ≠ isWordAt s i) = inside then k i gs else none
    | wordFront => if !isWordBefore s i && isWordAt s i then k i gs else none
    | wordBack => if isWordBefore s i && !isWordAt s i then k i gs else none
    | apart before => if (if before then isWordBefore s i else isWordAt s i) then none else k i gs
    | group number r => walk s n r i gs fun j gs =>
        k j ((number, i, j) :: gs.filter fun (m, _) => m ≠ number)
    | sequence a b => walk s n a i gs fun j gs => walk s n b j gs k
    | either a b => better (walk s n a i gs k) (walk s n b i gs k)
    | repetition r low high =>
      if high = some 0 then k i gs
      else
        let again := walk s n r i gs fun j gs =>
          if j = i && low = 0 then none
          else walk s n (repetition r (low - 1) (high.map (· - 1))) j gs k
        if low = 0 then
          match again with
          | some (x, g) => if x = s.chars.size then some (x, g) else better (some (x, g)) (k i gs)
          | none => k i gs
        else again
    | reference number =>
      match gs.find? fun (m, _) => m = number with
      | none => none
      | some (_, a, b) =>
        let size := b - a
        let same := (List.range size).all fun d =>
          match s.chars[a + d]?, s.chars[i + d]? with
          | some x, some y => sameChar s x y
          | _, _ => false
        if same then k (i + size) gs else none

/-- The characters of a text, one after another. -/
def literal (t : Text) : Regex := t.foldr (fun c r => sequence (one false [(c, c)]) r) empty

/-- The match that begins at a place: where it ends, and its groups. -/
def matchAt (s : Subject) (r : Regex) (i : Nat) : Option (Nat × Groups) :=
  walk s 1000000 r i [] fun j gs => some (j, gs)

/-- A match: where it begins and ends, and its groups. -/
structure Match where
  start : Nat
  stop : Nat
  groups : Groups

/-- The first match from a place on, within so many places. -/
def findFrom (s : Subject) (r : Regex) : Nat → Nat → Option Match
  | 0, _ => none
  | n + 1, i =>
    match matchAt s r i with
    | some (j, gs) => some ⟨i, j, gs⟩
    | none => findFrom s r n (i + 1)

def find (s : Subject) (r : Regex) (i : Nat) : Option Match :=
  findFrom s r (s.chars.size + 1 - i) i

/-- All matches from a place on that follow one another. None is empty right after another one. -/
def findAllFrom (s : Subject) (r : Regex) : Nat → Nat → Option Nat → List Match
  | 0, _, _ => []
  | n + 1, i, last =>
    match find s r i with
    | none => []
    | some m =>
      if m.stop = m.start then
        if last = some m.start then findAllFrom s r n (m.start + 1) none
        else m :: findAllFrom s r n (m.start + 1) none
      else m :: findAllFrom s r n m.stop (some m.stop)

def findAll (s : Subject) (r : Regex) : List Match := findAllFrom s r (s.chars.size + 2) 0 none

/-- The text between two places. -/
def Subject.slice (s : Subject) (a b : Nat) : Text := (s.chars.extract a b).toList

/-! ### Reading -/

/-- How a regular expression is written. Where it is strict, signs that have nothing to count or to
close are faults. -/
structure Syntax where
  extended : Bool
  strict : Bool

/-- What has been read: the number of groups so far, and the text left. -/
abbrev Reading := StateT (Nat × Text) (Except String)

/-- What stands at the front of an expression. -/
inductive Sign where
  | ending
  | opening
  | closing
  | bar
  | star
  | plus
  | question
  | braces
  | char (c : Char)
  | escape (c : Char)
  | dot
  | bracket
  | front
  | back
  | trailing
  deriving DecidableEq, Repr

/-- The sign at the front, and the text after it. -/
def sign (x : Syntax) : Text → Sign × Text
  | [] => (.ending, [])
  | '\\' :: [] => (.trailing, [])
  | '\\' :: c :: r =>
    if x.extended then (.escape c, r)
    else match c with
      | '(' => (.opening, r)
      | ')' => (.closing, r)
      | '|' => (.bar, r)
      | '+' => (.plus, r)
      | '?' => (.question, r)
      | '\x7b' => (.braces, r)
      | c => (.escape c, r)
  | c :: r =>
    match c with
    | '*' => (.star, r)
    | '.' => (.dot, r)
    | '[' => (.bracket, r)
    | '^' => (.front, r)
    | '$' => (.back, r)
    | c =>
      if x.extended then
        match c with
        | '(' => (.opening, r)
        | ')' => (.closing, r)
        | '|' => (.bar, r)
        | '+' => (.plus, r)
        | '?' => (.question, r)
        | '\x7b' => (.braces, r)
        | c => (.char c, r)
      else (.char c, r)

def just (c : Char) : Regex := one false [(c, c)]

def wordRanges : List (Char × Char) := [('a', 'z'), ('A', 'Z'), ('0', '9'), ('_', '_')]

def spaceRanges : List (Char × Char) := [('\t', '\x0d'), (' ', ' ')]

/-- What a character after a backslash stands for. -/
def escaped (c : Char) : Regex :=
  match c with
  | 'w' => one false wordRanges
  | 'W' => one true wordRanges
  | 's' => one false spaceRanges
  | 'S' => one true spaceRanges
  | 'b' => edge true
  | 'B' => edge false
  | '<' => wordFront
  | '>' => wordBack
  | '\x60' => front
  | '\'' => back
  | 'n' => just '\n'
  | 't' => just '\t'
  | c => just c

/-- The ranges of a bracket expression, of which the first character may be a closing bracket, and
the text after it. -/
def bracketRanges : Nat → Bool → Text → Except String (List (Char × Char) × Text)
  | 0, _, _ | _, _, [] => .error "Unmatched [, [^, [:, [., or [="
  | n + 1, first, t =>
    match t with
    | ']' :: r =>
      if first then do
        let (rs, rest) ← bracketRanges n false r
        pure ((']', ']') :: rs, rest)
      else .ok ([], r)
    | '[' :: ':' :: r =>
      match Pattern.class? (':' :: r) with
      | some (rs, size) => do
        let (more, rest) ← bracketRanges n false ((':' :: r).drop size)
        pure (rs ++ more, rest)
      | none => .error "Invalid character class name"
    | a :: '-' :: b :: r =>
      if b = ']' then do
        let (rs, rest) ← bracketRanges n false ('-' :: b :: r)
        pure ((a, a) :: rs, rest)
      else if b < a then .error "Invalid range end"
      else do
        let (rs, rest) ← bracketRanges n false r
        pure ((a, b) :: rs, rest)
    | c :: r => do
      let (rs, rest) ← bracketRanges n false r
      pure ((c, c) :: rs, rest)
    | [] => .error "Unmatched [, [^, [:, [., or [="

/-- The bounds between braces at the front, and the text after them. -/
def bounds (x : Syntax) (t : Text) : Option (Nat × Option Nat × Text) :=
  let low := t.takeWhile Char.isDigit
  let r := t.drop low.length
  let (high, r) : Option Text × Text := match r with
    | ',' :: r => (some (r.takeWhile Char.isDigit), r.dropWhile Char.isDigit)
    | r => (none, r)
  let closing : Text := if x.extended then ['\x7d'] else ['\\', '\x7d']
  if !closing.isPrefixOf r || (low.isEmpty && high.isNone) then none
  else
    let value (t : Text) : Nat := (Number.digitsOf 10 t).1
    let upper : Option Nat := match high with
      | none => some (value low)
      | some [] => none
      | some h => some (value h)
    some (value low, upper, r.drop closing.length)

section

variable (x : Syntax)

def look : Reading Sign := do return (sign x (← get).2).1

def skip : Reading Unit := modify fun (n, t) => (n, (sign x t).2)

/-- Puts repetitions behind an expression, as many as are allowed. -/
def repeated : Nat → Regex → Reading Regex
  | 0, r => pure r
  | n + 1, r => do
    match ← look x with
    | .star => do
      skip x
      if x.strict && !x.extended && (← look x) = .star then
        throw "Invalid preceding regular expression"
      repeated n (repetition r 0 none)
    | .plus => do
      skip x
      repeated n (repetition r 1 none)
    | .question => do
      skip x
      repeated n (repetition r 0 (some 1))
    | .braces => do
      let (count, t) ← get
      let inner := (sign x t).2
      match bounds x inner with
      | some (low, high, rest) =>
        if high.any (· < low) then throw "Invalid content of \\\x7b\\\x7d"
        else do
          set (count, rest)
          repeated n (repetition r low high)
      | none =>
        if x.extended && !x.strict then pure r
        else throw (if inner.any (· = '\x7d') then "Invalid content of \\\x7b\\\x7d"
          else "Unmatched \\\x7b")
    | _ => pure r

mutual

/-- Alternatives. -/
def alternatives : Nat → Nat → Reading Regex
  | 0, _ => throw "Regular expression too big"
  | n + 1, depth => do
    let a ← branch n depth true
    if (← look x) = .bar then do
      skip x
      return either a (← alternatives n depth)
    else pure a

/-- Expressions one after another; whether they are the first decides what some signs stand for. -/
def branch : Nat → Nat → Bool → Reading Regex
  | 0, _, _ => throw "Regular expression too big"
  | n + 1, depth, first => do
    let (count, t) ← get
    let (s, r) := sign x t
    let one' (e : Regex) : Reading Regex := do
      skip x
      let e ← repeated x t.length e
      return sequence e (← branch n depth false)
    match s with
    | .ending | .bar => pure empty
    | .closing =>
      if depth = 0 then
        if x.extended && !x.strict then one' (just ')') else throw "Unmatched ) or \\)"
      else pure empty
    | .trailing => throw "Trailing backslash"
    | .opening => do
      set (count + 1, r)
      let e ← alternatives n (depth + 1)
      if (← look x) ≠ .closing then throw "Unmatched ( or \\("
      skip x
      let e ← repeated x t.length (group (count + 1) e)
      return sequence e (← branch n depth false)
    | .bracket => do
      let (negated, inner) : Bool × Text := match r with
        | '^' :: r => (true, r)
        | r => (false, r)
      match bracketRanges (inner.length + 1) true inner with
      | .error e => throw e
      | .ok (ranges, rest) => do
        set (count, rest)
        let e ← repeated x t.length (one negated ranges)
        return sequence e (← branch n depth false)
    | .dot => one' (one true [('\x00', '\x00')])
    | .front =>
      if x.extended || first then do
        skip x
        if x.extended then do
          let e ← repeated x t.length front
          return sequence e (← branch n depth false)
        else return sequence front (← branch n depth true)
      else one' (just '^')
    | .back =>
      let next := (sign x r).1
      if x.extended || next = .ending || next = .closing || next = .bar then one' back
      else one' (just '$')
    | .star | .plus | .question | .braces =>
      if x.extended then
        if x.strict then throw "Invalid preceding regular expression"
        else if s = .braces then one' (just '\x7b')
        else do
          skip x
          branch n depth first
      else match s with
        | .star => one' (just '*')
        | .plus => one' (just '+')
        | .question => one' (just '?')
        | _ => throw "Invalid preceding regular expression"
    | .char c => one' (just c)
    | .escape c =>
      if c.isDigit && c ≠ '0' then
        if count < c.toNat - 48 then throw "Invalid back reference"
        else one' (reference (c.toNat - 48))
      else one' (escaped c)

end

/-- The regular expression that a text writes, and the number of its groups. -/
def ofText (t : Text) : Except String (Regex × Nat) := do
  let (r, count, _) ← (alternatives x (8 * t.length + 16) 0).run (0, t)
  pure (r, count)

end

end Regex
end Stencil.Shell
