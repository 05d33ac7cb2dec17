import Stencil.Shell.Command.Lexer

/-! Commands from tokens. A script is read line by line, so that the lines before a mistake are
still run. -/
namespace Stencil.Shell

namespace Token

def keywords : List String :=
  ["!", "case", "do", "done", "elif", "else", "esac", "fi", "for", "if", "in", "then", "until",
    "while", "\x7b", "\x7d"]

/-- The keyword that a token is where commands may begin. -/
def keyword? : Token → Option String
  | .word w =>
    match Word.bare? w with
    | some t => if keywords.contains (String.ofList t) then some (String.ofList t) else none
    | none => none
  | _ => none

def isMark (t : Token) (m : Mark) : Bool :=
  match t with
  | .mark k => k = m
  | _ => false

def isKeyword (t : Token) (k : String) : Bool := t.keyword? = some k

/-- How a complaint speaks of a token. -/
def shown (t : Token) : String :=
  match t with
  | .mark m => m.shown
  | .redirect _ _ _ => "redirection"
  | .word _ =>
    match t.keyword? with
    | some k => "\"" ++ k ++ "\""
    | none => "word"

/-- Whether a token ends a list of commands. -/
def endsList (t : Token) : Bool :=
  match t with
  | .mark m => m = .closing || m = .armEnd || m = .ending
  | .redirect _ _ _ => false
  | .word _ => t.keyword?.any
      ["do", "done", "elif", "else", "esac", "fi", "then", "\x7d"].contains

end Token

namespace Parser

open Lexer

/-- Complains about a token, and says what was expected if that is known. -/
def unexpected {α : Type} (t : Token) (expected : Option String) : Parsing α :=
  fail (t.shown ++ " unexpected" ++ expected.elim "" (" (expecting " ++ · ++ ")"))

/-- Names that no function may have. -/
def special : List String :=
  [".", ":", "break", "continue", "eval", "exec", "exit", "export", "local", "readonly", "return",
    "set", "shift", "times", "trap", "unset"]

section

variable (nested : Enclosure → Parsing (List Command))

def look : Parsing Token := peek nested

/-- Uses the next token. -/
def take : Parsing Token := do
  let t ← look nested
  accept
  pure t

/-- Uses line ends, as many as are allowed. -/
def skipNewlines : Nat → Parsing Unit
  | 0 => pure ()
  | n + 1 => do
    if (← look nested).isMark .newline then do
      accept
      skipNewlines n
    else pure ()

def newlines : Parsing Unit := do skipNewlines nested ((← get).rest.length + 1)

/-- Uses a keyword, or complains. -/
def expect (k : String) : Parsing Unit := do
  let t ← take nested
  if t.isKeyword k then pure () else unexpected t (some ("\"" ++ k ++ "\""))

def expectMark (m : Mark) : Parsing Unit := do
  let t ← take nested
  if t.isMark m then pure () else unexpected t (some m.shown)

/-- The word of a redirection, which is the next token unless it was read before. -/
def target (given : Option Word) : Parsing Word :=
  match given with
  | some w => pure w
  | none => do
    match ← take nested with
    | .word w => pure w
    | t => unexpected t none

/-- Redirections after a command. -/
def redirects : Nat → List Redirect → Parsing (List Redirect)
  | 0, acc => pure acc
  | n + 1, acc => do
    match ← look nested with
    | .redirect descriptor way given => do
      accept
      let w ← target nested given
      redirects n (acc ++ [.mk descriptor way w])
    | _ => pure acc

/-- Words up to a token of another kind. -/
def words : Nat → List Word → Parsing (List Word)
  | 0, acc => pure acc
  | n + 1, acc => do
    match ← look nested with
    | .word w => do
      accept
      words n (acc ++ [w])
    | _ => pure acc

/-- The patterns before an arm of a choice. -/
def patterns : Nat → List Word → Parsing (List Word)
  | 0, acc => pure acc
  | n + 1, acc => do
    let w ← match ← take nested with
      | .word w => pure w
      | t => unexpected t (some Mark.closing.shown)
    let t ← take nested
    if t.isMark .bar then patterns n (acc ++ [w])
    else if t.isMark .closing then pure (acc ++ [w])
    else unexpected t (some Mark.closing.shown)

end

/-- The words of a command that repeats for each argument. -/
def arguments : List Word := [[.parameter ['@'] .value [] true]]

mutual

/-- Commands inside a word. -/
def inside : Nat → Enclosure → Parsing (List Command)
  | 0, _ => fail "too deep"
  | n + 1, e => do
    let body ← list n false true []
    match e with
    | .parenthesis => do
      expectMark (inside n) .closing
      pure body
    | .whole => do
      let t ← look (inside n)
      if t.isMark .ending then pure body else unexpected t none

/-- Commands up to a token that ends them; the commands of a line end with it. Where `checked`
holds, there may be none. -/
def list : Nat → Bool → Bool → List Command → Parsing (List Command)
  | 0, _, _, _ => fail "too deep"
  | n + 1, line, checked, acc => do
    if !line then newlines (inside n)
    let t ← look (inside n)
    if line && t.isMark .newline then do
      accept
      pure acc
    else if t.isMark .ending || (checked && t.endsList) then pure acc
    else do
      let c ← conditional n
      let t ← look (inside n)
      if t.isMark .ampersand then do
        accept
        list n line (!line) (acc ++ [.background c])
      else if t.isMark .semicolon then do
        accept
        list n line (!line) (acc ++ [c])
      else if t.isMark .newline || t.isMark .ending then list n line (!line) (acc ++ [c])
      else if line then unexpected t none
      else pure (acc ++ [c])

def conditional : Nat → Parsing Command
  | 0 => fail "too deep"
  | n + 1 => do conditionalFrom n (← pipeline n)

/-- Commands that run if the one before them succeeds or fails. -/
def conditionalFrom : Nat → Command → Parsing Command
  | 0, _ => fail "too deep"
  | n + 1, first => do
    let t ← look (inside n)
    if t.isMark .both || t.isMark .either then do
      accept
      newlines (inside n)
      let second ← pipeline n
      conditionalFrom n (if t.isMark .both then .both first second else .either first second)
    else pure first

def pipeline : Nat → Parsing Command
  | 0 => fail "too deep"
  | n + 1 => do
    let negated := (← look (inside n)).isKeyword "!"
    if negated then accept
    let first ← command n
    match ← stages n [first], negated with
    | [c], false => pure c
    | cs, _ => pure (.pipe negated cs)

def stages : Nat → List Command → Parsing (List Command)
  | 0, _ => fail "too deep"
  | n + 1, acc => do
    if (← look (inside n)).isMark .bar then do
      accept
      newlines (inside n)
      let c ← command n
      stages n (acc ++ [c])
    else pure acc

def command : Nat → Parsing Command
  | 0 => fail "too deep"
  | n + 1 => do
    let t ← look (inside n)
    let line := (← get).line
    match t.keyword?, t with
    | none, .word _ | none, .redirect _ _ _ => simple n line [] [] []
    | some "if", _ => do
      accept
      let (arms, otherwise) ← branches n []
      finish n line (.branch arms otherwise)
    | some "while", _ => do
      accept
      finish n line (← repetition n true)
    | some "until", _ => do
      accept
      finish n line (← repetition n false)
    | some "for", _ => do
      accept
      finish n line (← iteration n line)
    | some "case", _ => do
      accept
      let subject ← match ← take (inside n) with
        | .word w => pure w
        | t => unexpected t (some "word")
      newlines (inside n)
      expect (inside n) "in"
      let arms ← choices n []
      finish n line (.choice line subject arms)
    | some "\x7b", _ => do
      accept
      let body ← list n false false []
      expect (inside n) "\x7d"
      finish n line (.group body)
    | none, .mark .opening => do
      accept
      let body ← list n false false []
      expectMark (inside n) .closing
      finish n line (.subshell line body)
    | _, t => unexpected t none

/-- A command with the redirections that follow it. -/
def finish : Nat → Nat → Command → Parsing Command
  | 0, _, _ => fail "too deep"
  | n + 1, line, c => do
    match ← redirects (inside n) ((← get).rest.length + 1) [] with
    | [] => pure c
    | rs => pure (.redirected line c rs)

/-- The arms after a word that asks for a condition. -/
def branches : Nat → List (List Command × List Command) →
    Parsing (List (List Command × List Command) × List Command)
  | 0, _ => fail "too deep"
  | n + 1, acc => do
    let condition ← list n false false []
    expect (inside n) "then"
    let body ← list n false false []
    let arms := acc ++ [(condition, body)]
    let t ← take (inside n)
    match t.keyword? with
    | some "elif" => branches n arms
    | some "else" => do
      let otherwise ← list n false false []
      expect (inside n) "fi"
      pure (arms, otherwise)
    | some "fi" => pure (arms, [])
    | _ => unexpected t (some "\"fi\"")

def repetition : Nat → Bool → Parsing Command
  | 0, _ => fail "too deep"
  | n + 1, wanted => do
    let condition ← list n false false []
    expect (inside n) "do"
    let body ← list n false false []
    expect (inside n) "done"
    pure (.loop wanted condition body)

def iteration : Nat → Nat → Parsing Command
  | 0, _ => fail "too deep"
  | n + 1, line => do
    let name ← match ← take (inside n) with
      | .word w =>
        match Word.bare? w with
        | some t => if isName t then pure t else fail "Bad for loop variable"
        | none => fail "Bad for loop variable"
      | _ => fail "Bad for loop variable"
    newlines (inside n)
    let t ← look (inside n)
    let ws ←
      if t.isKeyword "in" then do
        accept
        let ws ← words (inside n) ((← get).rest.length + 1) []
        let t ← take (inside n)
        if t.isMark .newline || t.isMark .semicolon then pure ws else unexpected t none
      else do
        if t.isMark .semicolon then accept
        pure arguments
    newlines (inside n)
    expect (inside n) "do"
    let body ← list n false false []
    expect (inside n) "done"
    pure (.each line name ws body)

/-- The arms of a choice. -/
def choices : Nat → List (List Word × List Command) → Parsing (List (List Word × List Command))
  | 0, _ => fail "too deep"
  | n + 1, acc => do
    newlines (inside n)
    let t ← look (inside n)
    if t.isKeyword "esac" then do
      accept
      pure acc
    else do
      if t.isMark .opening then accept
      let ps ← patterns (inside n) ((← get).rest.length + 1) []
      let body ← list n false true []
      newlines (inside n)
      let t ← take (inside n)
      if t.isKeyword "esac" then pure (acc ++ [(ps, body)])
      else if t.isMark .armEnd then choices n (acc ++ [(ps, body)])
      else unexpected t (some Mark.armEnd.shown)

/-- A command of words and redirections, or the definition of a function. -/
def simple : Nat → Nat → List (Text × Word) → List Word → List Redirect → Parsing Command
  | 0, _, _, _, _ => fail "too deep"
  | n + 1, line, assignments, ws, rs => do
    match ← look (inside n), ws with
    | .word w, [] => do
      accept
      match assignment? w with
      | some a => simple n line (assignments ++ [a]) [] rs
      | none => simple n line assignments [w] rs
    | .word w, ws => do
      accept
      simple n line assignments (ws ++ [w]) rs
    | .redirect descriptor way given, ws => do
      accept
      let w ← target (inside n) given
      simple n line assignments ws (rs ++ [.mk descriptor way w])
    | .mark .opening, [w] =>
      if assignments.isEmpty && rs.isEmpty then do
        accept
        expectMark (inside n) .closing
        match Word.bare? w with
        | some name =>
          if isName name && !special.contains (String.ofList name) then do
            newlines (inside n)
            .define name <$> command n
          else fail "Bad function name"
        | none => fail "Bad function name"
      else pure (.simple line assignments ws rs)
    | _, ws => pure (.simple line assignments ws rs)

end

/-- How deep the commands of a script may be read. -/
def depth (r : Reader) : Nat := 8 * r.rest.length + 64

/-- The commands of the next line, unless the script is over. -/
def line : Parsing (Option (List Command)) := do
  let n := depth (← get)
  let t ← look (inside n)
  if t.isMark .ending then pure none else some <$> list n true false []

end Parser
end Stencil.Shell
