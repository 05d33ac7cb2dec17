import Stencil.Node

/-! Scopes of names. A call opens a scope inside the one it stands in and closes it at its end, so
the scopes make up a stack, in which each is the parent of the next. -/
namespace Stencil

/-- What a name stands for. -/
inductive Binding where
  | text (value : Text)
  | function (params : List Text) (body : Node)
  deriving BEq

/-- The names of the parameters, of which a text has none. -/
def Binding.params : Binding → List Text
  | text _ => []
  | function params _ => params

/-- The names of one scope. -/
abbrev Scope := Entries Text Binding

/-- The innermost scope and those around it, nearest first. A scope is named by the number of
scopes around it. -/
structure Scopes where
  inner : Scope
  outer : List Scope
  deriving BEq

namespace Scopes

/-- The mark at the front of the name of a variable. -/
def sigil : Char := '$'

/-- The name under which a variable is bound. -/
def variableName (name : Text) : Text := sigil :: name

variable (s : Scopes)

/-- One scope without names. -/
def initial : Scopes := ⟨[], []⟩

def depth : Nat := s.outer.length + 1

/-- The innermost scope. -/
def current : Nat := s.outer.length

/-- Opens a scope. -/
def push : Scopes := ⟨[], s.inner :: s.outer⟩

/-- Closes the innermost scope, unless it is the only one. -/
def pop : Scopes :=
  match s.outer with
  | [] => s
  | scope :: outer => ⟨scope, outer⟩

/-- Scope `i` and those around it, nearest first. -/
def levels (i : Nat) : List Scope :=
  if i < s.depth then (s.inner :: s.outer).drop (s.current - i) else []

def parent? (i : Nat) : Option Nat := if 0 < i && i < s.depth then some (i - 1) else none

/-- What `name` stands for in scope `i` itself. -/
def local? (i : Nat) (name : Text) : Option Binding :=
  (s.levels i).head?.bind (Entries.get? name)

/-- What `name` stands for in scope `i` or, where it has no such name, in the nearest around it. -/
def lookup? (i : Nat) (name : Text) : Option Binding :=
  (s.levels i).findSome? (Entries.get? name)

/-- Changes scope `i`, if there is one. -/
def modify (i : Nat) (f : Scope → Scope) : Scopes :=
  if i < s.depth then
    match (s.inner :: s.outer).modify (s.current - i) f with
    | [] => s
    | inner :: outer => ⟨inner, outer⟩
  else s

/-- Binds a name in scope `i`. -/
def define (i : Nat) (name : Text) (b : Binding) : Scopes := s.modify i (Entries.insert name b)

/-- Takes a name out of scope `i`. -/
def erase (i : Nat) (name : Text) : Scopes := s.modify i (Entries.erase name)

/-- Adds the variables of a scope to those of scopes inside it, which hide them. -/
def addVariables (found : Entries Text Text) (scope : Scope) : Entries Text Text :=
  scope.foldl (fun found (key, b) =>
    match key, b with
    | c :: name, .text value =>
      if c = sigil && !found.has name then found.insert name value else found
    | _, _ => found) found

/-- The texts of all variables that scope `i` sees, without the mark of their names. -/
def variableTexts (i : Nat) : Entries Text Text := (s.levels i).foldl addVariables []

end Scopes
end Stencil
