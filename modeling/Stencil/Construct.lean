import Stencil.Text

/-! The commands that the language itself defines, and their names. -/
namespace Stencil

/-- How many arguments a command takes. -/
structure Arity where
  min : Nat
  max : Nat
  deriving DecidableEq, Repr

namespace Arity

def exactly (n : Nat) : Arity := ⟨n, n⟩

def accepts (a : Arity) (n : Nat) : Bool := a.min ≤ n && n ≤ a.max

def describe (a : Arity) : String := if a.min = a.max then s!"{a.min}" else s!"{a.min} to {a.max}"

end Arity

/-- A name without one `!` at its back. -/
def plainName (name : Text) : Text := name.dropBack ['!']

/-- Whether a name asks for its leading arguments to be read as expressions. -/
def isInsistent (name : Text) : Bool := name.getLast? = some '!'

/-- Commands that are read into nodes of their own. -/
inductive Construct where
  | define
  | branch
  | loop
  | url
  | file
  | use
  | exec
  | choice
  | case
  deriving DecidableEq, Repr

namespace Construct

def all : List Construct := [.define, .branch, .loop, .url, .file, .use, .exec, .choice, .case]

def name : Construct → Text
  | .define => "f".toList
  | .branch => "if".toList
  | .loop => "loop".toList
  | .url => "url".toList
  | .file => "file".toList
  | .use => "use".toList
  | .exec => "exec".toList
  | .choice => "match".toList
  | .case => "case".toList

/-- Leading arguments that a `!` after the name turns into expressions. A definition has none, and
knows no `!`. -/
def insistentArguments : Construct → Nat
  | .define => 0
  | .loop => 3
  | .branch | .url | .file | .use | .exec | .choice | .case => 1

def arity : Construct → Arity
  | .define | .choice | .case => .exactly 2
  | .branch => ⟨2, 3⟩
  | .loop => .exactly 4
  | .url | .file | .exec => .exactly 1
  | .use => ⟨1, 2⟩

/-- The construct that a command name stands for. -/
def ofName? (name : Text) : Option Construct :=
  all.find? fun c => c.name = if c = .define then name else plainName name

end Construct

/-- What a command name begins. -/
inductive Heading where
  | comment
  /-- An expression between the marks of an argument. -/
  | source
  | construct (c : Construct)
  | call
  deriving DecidableEq, Repr

namespace Heading

def commentName : Text := ['#']

def sourceName : Text := ['$']

def ofName (name : Text) : Heading :=
  if name = commentName then .comment
  else if name = sourceName then .source
  else match Construct.ofName? name with
    | some c => .construct c
    | none => .call

end Heading

/-- Commands that stay calls and are known when they are rendered. -/
inductive Builtin where
  | var
  | toParent
  | toChild
  | del
  | halt
  | env
  deriving DecidableEq, Repr

namespace Builtin

def all : List Builtin := [.var, .toParent, .toChild, .del, .halt, .env]

def name : Builtin → Text
  | .var => "var".toList
  | .toParent => "toparent".toList
  | .toChild => "tochild".toList
  | .del => "del".toList
  | .halt => "halt".toList
  | .env => "env".toList

def arity : Builtin → Arity
  | .var => .exactly 2
  | .halt => ⟨0, 1⟩
  | .toParent | .toChild | .del | .env => .exactly 1

/-- The built-in command that a name stands for, with or without `!`. -/
def ofName? (name : Text) : Option Builtin := all.find? fun b => b.name = plainName name

end Builtin

/-- Names that no definition and no variable may take. -/
def reservedNames : List Text :=
  ["#".toList, "$".toList, "f".toList, "if".toList, "loop".toList, "url".toList, "file".toList,
    "use".toList, "exec".toList, "match".toList, "case".toList, "var".toList, "toparent".toList,
    "tochild".toList, "del".toList, "halt".toList, "env".toList]

/-- Whether a name, with or without `!`, is reserved. -/
def isReserved (name : Text) : Bool := plainName name ∈ reservedNames

end Stencil
