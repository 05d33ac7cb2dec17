import Stencil.Text

/-! The marks that divide a template into commands, arguments, parameters and expressions. -/
namespace Stencil

/-- The marks of the syntax. Any of them may be empty, several characters long or equal to another;
an empty one is never found. -/
structure Delimiters where
  /-- Begins a command; doubled, it stands for itself. -/
  escape : Text
  argStart : Text
  argEnd : Text
  paramStart : Text
  paramAssign : Text
  paramSep : Text
  paramEnd : Text
  evalStart : Text
  evalEnd : Text
  deriving DecidableEq, Repr

namespace Delimiters

/-- The blanks that end a command name and keep an escape from beginning one. -/
def isGap (c : Char) : Bool := c = ' ' || c = '\n' || c = '\t' || c = '\r'

/-- Whether a gap stands at the front of `t`. -/
def atGap (t : Text) : Bool := t.head?.any isGap

variable (d : Delimiters)

/-- Whether a command begins here: an escape that neither a gap, nor the end, nor a second escape
follows. -/
def atCommand (t : Text) : Bool :=
  d.escape.startsAt t &&
    let rest := t.drop d.escape.length
    !rest.isEmpty && !atGap rest && !d.escape.isPrefixOf rest

/-- Whether an escape stands here twice. -/
def atDoubled (t : Text) : Bool :=
  d.escape.startsAt t && d.escape.isPrefixOf (t.drop d.escape.length)

end Delimiters
end Stencil
