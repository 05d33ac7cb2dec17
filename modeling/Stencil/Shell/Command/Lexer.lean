import Stencil.Shell.Command

/-! Cutting a script into words, marks and redirections. The commands inside a word are read by
whoever reads commands. -/
namespace Stencil.Shell

/-- Marks between words. -/
inductive Mark where
  | semicolon
  | ampersand
  | both
  | bar
  | either
  | opening
  | closing
  | armEnd
  | newline
  | ending
  deriving DecidableEq, Repr

/-- How a complaint speaks of a mark. -/
def Mark.shown : Mark → String
  | semicolon => "\";\""
  | ampersand => "\"&\""
  | both => "\"&&\""
  | bar => "\"|\""
  | either => "\"||\""
  | opening => "\"(\""
  | closing => "\")\""
  | armEnd => "\";;\""
  | newline => "newline"
  | ending => "end of file"

inductive Token where
  | word (w : Word)
  | mark (m : Mark)
  /-- A redirection, with its word if that is a document. -/
  | redirect (descriptor : Nat) (way : Way) (target : Option Word)

/-- A complaint about a script, with the line that it was read up to. -/
structure SyntaxFault where
  line : Nat
  text : String
  deriving DecidableEq, Repr

/-- What is left of a script. -/
structure Reader where
  rest : Text
  line : Nat
  /-- Lines of documents, which were taken out and count where the line ends. -/
  documents : Nat
  /-- A token that was read but not used. -/
  ahead : Option Token

def Reader.ofText (t : Text) (line : Nat) : Reader := ⟨t, line, 0, none⟩

abbrev Parsing := StateT Reader (Except SyntaxFault)

/-- Where commands inside a word end. -/
inductive Enclosure where
  | parenthesis
  | whole
  deriving DecidableEq, Repr

/-- What the characters of a word belong to. -/
inductive Quoting where
  | bare
  | double
  | document
  | braces (double : Bool)
  | arithmetic (depth : Nat)
  deriving DecidableEq, Repr

namespace Quoting

/-- Whether characters are quoted. -/
def quotes : Quoting → Bool
  | bare | braces false => false
  | _ => true

/-- Whether quotation marks have a meaning. -/
def hasSingle : Quoting → Bool
  | bare | braces false => true
  | _ => false

/-- Whether a backslash takes the meaning from a character. -/
def escapes (q : Quoting) (c : Char) : Bool :=
  !q.quotes || c = '\\' || c = Char.ofNat 96 || c = '$' ||
    (c = '"' && q ≠ document) ||
    (c = '\x7d' && q = braces true)

end Quoting

namespace Lexer

def fail {α : Type} (text : String) : Parsing α := do throw ⟨(← get).line, text⟩

/-- Drops line ends that are taken back by a backslash, and counts them. -/
def joined : Text → Text × Nat
  | '\\' :: '\n' :: r => ((joined r).1, (joined r).2 + 1)
  | t => (t, 0)

/-- What is left once line ends are taken back. -/
def rest : Parsing Text := do
  let s ← get
  let (t, n) := joined s.rest
  set { s with rest := t, line := s.line + n }
  pure t

/-- Drops characters and counts their lines. -/
def drop (n : Nat) : Parsing Unit :=
  modify fun s => { s with
    rest := s.rest.drop n
    line := s.line + (s.rest.take n).count '\n' }

def unterminated : String := "Unterminated quoted string"

/-- The text up to a single quotation mark, which is dropped too. -/
def single : Parsing Text := do
  let s ← get
  match Text.cutAt? '\'' s.rest with
  | some (t, _) => do
    drop (t.length + 1)
    pure t
  | none => do
    drop s.rest.length
    fail unterminated

/-- The text up to a backquote, without the backslashes that protect what stands in it. -/
def backquoted (double : Bool) : Text → Option (Text × Nat)
  | [] => none
  | '\\' :: c :: r =>
    let (kept, drop) := if c = '\\' || c = Char.ofNat 96 || c = '$' || (double && c = '"')
      then ([c], 2) else (['\\', c], 2)
    (backquoted double r).map fun (t, n) => (kept ++ t, n + drop)
  | c :: r =>
    if c = Char.ofNat 96 then some ([], 1)
    else (backquoted double r).map fun (t, n) => (c :: t, n + 1)

/-- Reads something else in place of the rest of the script, and comes back. -/
def within {α : Type} (t : Text) (p : Parsing α) : Parsing α := do
  let s ← get
  set { s with rest := t }
  let a ← p
  set s
  pure a

def isSpecial (c : Char) : Bool := c.isDigit || "@*#?$!-".toList.contains c

/-- The name of a parameter at the front of a text between braces, and whether its length is asked
for. -/
def parameterName (t : Text) : Option (Text × Bool) :=
  let name (t : Text) : Option Text :=
    match t with
    | c :: _ =>
      if isNameStart c then some (t.takeWhile isNamePart)
      else if c.isDigit then some (t.takeWhile Char.isDigit)
      else if isSpecial c then some [c]
      else none
    | [] => none
  match t with
  | '#' :: c :: r =>
    if isNamePart c then (name (c :: r)).map (·, true)
    else if c ≠ '\x7d' && isSpecial c && r.head? = some '\x7d' then some ([c], true)
    else some (['#'], false)
  | t => (name t).map (·, false)

/-- What is asked for after the name of a parameter, and how many characters say so. -/
def reference : Text → Reference × Nat
  | ':' :: '-' :: _ => (.default true, 2)
  | ':' :: '=' :: _ => (.assign true, 2)
  | ':' :: '?' :: _ => (.require true, 2)
  | ':' :: '+' :: _ => (.alternative true, 2)
  | '-' :: _ => (.default false, 1)
  | '=' :: _ => (.assign false, 1)
  | '?' :: _ => (.require false, 1)
  | '+' :: _ => (.alternative false, 1)
  | '%' :: '%' :: _ => (.cutBack true, 2)
  | '%' :: _ => (.cutBack false, 1)
  | '#' :: '#' :: _ => (.cutFront true, 2)
  | '#' :: _ => (.cutFront false, 1)
  | '\x7d' :: _ => (.value, 0)
  | _ => (.unknown, 0)

/-- Whether the word of a reference is quoted as what is around it. -/
def keepsQuoting : Reference → Bool
  | .cutFront _ | .cutBack _ => false
  | _ => true

/-- Whether a character ends a word that is not quoted. -/
def endsWord (c : Char) : Bool := " \t\n;&|()<>".toList.contains c

section

variable (nested : Enclosure → Parsing (List Command))

/-- The parts of a word, put in front of those before them, which are kept backwards. -/
def parts : Nat → Quoting → List Part → Parsing (List Part)
  | 0, _, acc => pure acc
  | n + 1, q, acc => do
    match ← rest, q with
    | [], .double => fail unterminated
    | [], .braces true => fail unterminated
    | [], .braces false => fail "Missing '\x7d'"
    | [], .arithmetic _ => fail "Missing '))'"
    | [], _ => pure acc
    | '\\' :: [], _ => do
      drop 1
      parts n q (Part.push '\\' true acc)
    | '\\' :: c :: _, q => do
      drop 2
      let acc := if q.escapes c then acc else Part.push '\\' true acc
      parts n q (Part.push c true acc)
    | '\'' :: _, q =>
      if q.hasSingle then do
        drop 1
        let t ← single
        parts n q (.text t.reverse true :: acc)
      else do
        drop 1
        parts n q (Part.push '\'' q.quotes acc)
    | '"' :: _, .double => do
      drop 1
      pure acc
    | '"' :: _, .document => do
      drop 1
      parts n q (Part.push '"' true acc)
    | '"' :: _, .arithmetic _ => do
      drop 1
      parts n q (Part.push '"' true acc)
    | '"' :: _, q => do
      drop 1
      let inner ← parts n .double []
      parts n q (if inner.isEmpty then .text [] true :: acc else inner ++ acc)
    | '\x7d' :: _, .braces _ => do
      drop 1
      pure acc
    | '(' :: _, .arithmetic depth => do
      drop 1
      parts n (.arithmetic (depth + 1)) (Part.push '(' true acc)
    | ')' :: _, .arithmetic (depth + 1) => do
      drop 1
      parts n (.arithmetic depth) (Part.push ')' true acc)
    | ')' :: _, .arithmetic 0 => do
      drop 1
      match ← rest with
      | ')' :: _ => do
        drop 1
        pure acc
      | _ => parts n q (Part.push ')' true acc)
    | '$' :: _, q => do
      drop 1
      match ← rest with
      | '(' :: _ => do
        drop 1
        match ← rest with
        | '(' :: _ => do
          drop 1
          let source ← parts n (.arithmetic 0) []
          parts n q (.arithmetic (Part.turned source) q.quotes :: acc)
        | _ => do
          let body ← nested .parenthesis
          parts n q (.output body q.quotes :: acc)
      | '\x7b' :: _ => do
        drop 1
        match parameterName (← rest) with
        | none => do
          let _ ← parts n (.braces q.quotes) []
          parts n q (.parameter [] .unknown [] q.quotes :: acc)
        | some (name, true) => do
          drop (name.length + 1)
          let word ← parts n (.braces q.quotes) []
          let asked := if word.isEmpty then .length else .unknown
          parts n q (.parameter name asked [] q.quotes :: acc)
        | some (name, false) => do
          drop name.length
          let (asked, size) := reference (← rest)
          drop size
          let word ← parts n (.braces (q.quotes && keepsQuoting asked)) []
          parts n q (.parameter name asked (Part.turned word) q.quotes :: acc)
      | c :: r =>
        if isNameStart c then do
          let name := (c :: r).takeWhile isNamePart
          drop name.length
          parts n q (.parameter name .value [] q.quotes :: acc)
        else if isSpecial c then do
          drop 1
          parts n q (.parameter [c] .value [] q.quotes :: acc)
        else parts n q (Part.push '$' q.quotes acc)
      | [] => parts n q (Part.push '$' q.quotes acc)
    | c :: r, q =>
      if c = Char.ofNat 96 then
        match backquoted q.quotes r with
        | none => fail "EOF in backquote substitution"
        | some (t, size) => do
          drop (size + 1)
          let body ← within t (nested .whole)
          parts n q (.output body q.quotes :: acc)
      else if q = .bare && endsWord c then pure acc
      else do
        drop 1
        parts n q (Part.push c q.quotes acc)

/-- As many parts as characters are left is more than there are. -/
def partsLeft (q : Quoting) : Parsing Word := do
  let s ← get
  pure (Part.turned (← parts nested (2 * s.rest.length + 2) q []))

/-- The lines of a document up to its mark, and how many lines and which text come after. -/
def documentLines (mark : Text) (stripped : Bool) : List Text → Text × Nat × Text
  | [] => ([], 0, [])
  | l :: ls =>
    let shown := if stripped then l.dropWhile (· = '\t') else l
    if shown = mark then ([], 1, Text.join ['\n'] ls)
    else
      let (body, n, after) := documentLines mark stripped ls
      (shown ++ (if ls.isEmpty then [] else '\n' :: body), n + 1, after)

/-- Takes the document with the given mark out of the lines after this one. -/
def takeDocument (mark : Text) (stripped : Bool) : Parsing Text := do
  let s ← get
  match Text.cutAt? '\n' s.rest with
  | none => pure []
  | some (before, after) => do
    let (body, n, after) := documentLines mark stripped (Text.splitOn '\n' after)
    set { s with rest := before ++ '\n' :: after, documents := s.documents + n }
    pure body

/-- The document that follows the mark of a redirection. -/
def document (stripped : Bool) : Parsing (Option Word) := do
  modify fun s => { s with rest := s.rest.dropWhile fun c => c = ' ' || c = '\t' }
  match ← rest with
  | [] => pure none
  | c :: _ =>
    if endsWord c then pure none
    else do
      let mark ← partsLeft nested .bare
      let body ← takeDocument mark.spelled stripped
      if mark.bare?.isSome then some <$> within body (partsLeft nested .document)
      else pure (some [.text body true])

/-- The redirection whose sign stands at the front. -/
def redirect (descriptor : Option Nat) : Parsing Token := do
  let (way, size, standard) : Option Way × Nat × Nat := match ← rest with
    | '>' :: '>' :: _ => (some .append, 2, 1)
    | '>' :: '|' :: _ => (some .overwrite, 2, 1)
    | '>' :: '&' :: _ => (some .copy, 2, 1)
    | '>' :: _ => (some .write, 1, 1)
    | '<' :: '<' :: _ => (none, 2, 0)
    | '<' :: '&' :: _ => (some .copy, 2, 0)
    | '<' :: '>' :: _ => (some .readWrite, 2, 0)
    | _ => (some .read, 1, 0)
  drop size
  let descriptor := descriptor.getD standard
  match way with
  | some way => pure (.redirect descriptor way none)
  | none => do
    let stripped := (← rest).head? = some '-'
    if stripped then drop 1
    pure (.redirect descriptor .here (← document nested stripped))

def blank (c : Char) : Bool := c = ' ' || c = '\t'

/-- Drops blanks and a comment, as often as is said. -/
def skipBlanks : Nat → Parsing Unit
  | 0 => pure ()
  | n + 1 => do
    match ← rest with
    | c :: r =>
      if blank c then do
        drop 1
        skipBlanks n
      else if c = '#' then drop (r.takeWhile (· ≠ '\n')).length.succ
      else pure ()
    | [] => pure ()

/-- Reads a token. -/
def token : Parsing Token := do
  skipBlanks (← get).rest.length
  let marked (m : Mark) (size : Nat) : Parsing Token := do
    drop size
    pure (.mark m)
  match ← rest with
  | [] => pure (.mark .ending)
  | '\n' :: _ => do
    drop 1
    modify fun s => { s with line := s.line + s.documents, documents := 0 }
    pure (.mark .newline)
  | '&' :: '&' :: _ => marked .both 2
  | '&' :: _ => marked .ampersand 1
  | '|' :: '|' :: _ => marked .either 2
  | '|' :: _ => marked .bar 1
  | ';' :: ';' :: _ => marked .armEnd 2
  | ';' :: _ => marked .semicolon 1
  | '(' :: _ => marked .opening 1
  | ')' :: _ => marked .closing 1
  | c :: r =>
    if c = '<' || c = '>' then redirect nested none
    else if c.isDigit && (r.head? = some '<' || r.head? = some '>') then do
      drop 1
      redirect nested (some (c.toNat - '0'.toNat))
    else do pure (.word (← partsLeft nested .bare))

/-- The next token, which is still to be used. -/
def peek : Parsing Token := do
  match (← get).ahead with
  | some t => pure t
  | none => do
    let t ← token nested
    modify fun s => { s with ahead := some t }
    pure t

end

/-- Uses the token that was read. -/
def accept : Parsing Unit := modify fun s => { s with ahead := none }

end Lexer
end Stencil.Shell
