import Stencil.Position

/-! Tokens: pieces of a template with their kind, their exact text and their place. -/
namespace Stencil

/-- What a token is. -/
inductive TokenKind where
  /-- Text between commands. -/
  | raw
  /-- The mark before a command name. -/
  | escape
  | commandName
  | argStart
  | argEnd
  | paramStart
  | paramEnd
  | paramSep
  | paramAssign
  | paramKey
  /-- An expression with its marks. -/
  | expression
  deriving DecidableEq, Inhabited, Repr

/-- How messages name a kind of token. -/
def TokenKind.describe : TokenKind → String
  | .raw => "raw text"
  | .escape => "command prefix"
  | .commandName => "command name"
  | .argStart => "argument start"
  | .argEnd => "argument end"
  | .paramStart => "parameter start"
  | .paramEnd => "parameter end"
  | .paramSep => "parameter separator"
  | .paramAssign => "parameter assignment"
  | .paramKey => "parameter key"
  | .expression => "inline expression"

/-- A token before its place is known. -/
structure Lexeme where
  kind : TokenKind
  text : Text
  deriving DecidableEq, Repr

/-- The text that a row of lexemes was cut from. -/
def Lexeme.spelling (ls : List Lexeme) : Text := ls.flatMap Lexeme.text

structure Token where
  kind : TokenKind
  text : Text
  position : Position
  deriving DecidableEq, Repr

/-- Gives each lexeme the place at which the text before it ends. -/
def Token.place (p : Position) : List Lexeme → List Token
  | [] => []
  | l :: ls => ⟨l.kind, l.text, p⟩ :: place (p.after l.text) ls

end Stencil
