import Stencil.Text

/-! Commands of the shell as data: words with the parts that are filled in when a command runs,
redirections, and the ways in which commands are put together. Every character is a byte. -/
namespace Stencil.Shell

/-- What a reference to a parameter asks for. Where `orEmpty` holds, an empty value counts as
none. -/
inductive Reference where
  | value
  | length
  /-- The word where there is no value. -/
  | default (orEmpty : Bool)
  /-- The word where there is no value, which becomes the value. -/
  | assign (orEmpty : Bool)
  /-- A failure where there is no value. -/
  | require (orEmpty : Bool)
  /-- The word where there is a value. -/
  | alternative (orEmpty : Bool)
  /-- The value without what fits a pattern at its front. -/
  | cutFront (longest : Bool)
  /-- The value without what fits a pattern at its back. -/
  | cutBack (longest : Bool)
  | unknown
  deriving DecidableEq, Repr

/-- What a redirection does to a descriptor. -/
inductive Way where
  | read
  | write
  /-- Writes also where files are to be kept. -/
  | overwrite
  | append
  | readWrite
  /-- Makes it another name of the descriptor that the word names. -/
  | copy
  /-- Reads the word itself. -/
  | here
  deriving DecidableEq, Repr

mutual

/-- A part of a word. What is quoted is neither split nor a pattern. -/
inductive Part where
  | text (t : Text) (quoted : Bool)
  | parameter (name : Text) (reference : Reference) (word : List Part) (quoted : Bool)
  /-- What commands write. -/
  | output (body : List Command) (quoted : Bool)
  | arithmetic (source : List Part) (quoted : Bool)

inductive Redirect where
  | mk (descriptor : Nat) (way : Way) (target : List Part)

/-- A command. The number with which some begin is that of their line. -/
inductive Command where
  | simple (line : Nat) (assignments : List (Text × List Part)) (words : List (List Part))
      (redirects : List Redirect)
  /-- Commands of which each but the first reads what the one before it writes. -/
  | pipe (negated : Bool) (stages : List Command)
  | both (first second : Command)
  | either (first second : Command)
  | background (body : Command)
  | group (body : List Command)
  | subshell (line : Nat) (body : List Command)
  /-- Conditions with what is done under the first that holds, and what is done under none. -/
  | branch (arms : List (List Command × List Command)) (otherwise : List Command)
  /-- Repeats the body while the condition gives what is wanted. -/
  | loop (wanted : Bool) (condition body : List Command)
  | each (line : Nat) (name : Text) (words : List (List Part)) (body : List Command)
  | choice (line : Nat) (subject : List Part) (arms : List (List (List Part) × List Command))
  | define (name : Text) (body : Command)
  | redirected (line : Nat) (body : Command) (redirects : List Redirect)

end

abbrev Word := List Part

namespace Part

/-- Puts a character in front of parts whose texts are kept backwards, last part first. -/
def push (c : Char) (quoted : Bool) : List Part → List Part
  | text t q :: ps =>
    if q = quoted then text (c :: t) q :: ps else text [c] quoted :: text t q :: ps
  | ps => text [c] quoted :: ps

/-- Parts that were kept backwards. -/
def turned (parts : List Part) : Word :=
  parts.reverse.map fun
    | text t q => text t.reverse q
    | p => p

end Part

namespace Word

/-- The text of a word with nothing quoted in it and nothing to fill in. -/
def bare? : Word → Option Text
  | [.text t false] => some t
  | _ => none

/-- The text of a word without the parts to fill in. -/
def spelled (w : Word) : Text :=
  w.flatMap fun
    | .text t _ => t
    | _ => []

end Word

def isNameStart (c : Char) : Bool := c.isAlpha || c = '_'

def isNamePart (c : Char) : Bool := isNameStart c || c.isDigit

/-- Whether a text can be the name of a variable. -/
def isName (t : Text) : Bool := t.head?.any isNameStart && t.all isNamePart

/-- A word as the name of a variable and the value that it gives to it. -/
def assignment? : Word → Option (Text × Word)
  | .text t false :: rest =>
    match Text.cutAt? '=' t with
    | some (name, value) =>
      if isName name then
        some (name, (if value.isEmpty then [] else [.text value false]) ++ rest)
      else none
    | none => none
  | _ => none

end Stencil.Shell
