import Stencil.Text

/-! Paths as text: joining, splitting into components, and folding `..` away by spelling alone. -/
namespace Stencil.Path

/-- A step that a path takes. -/
inductive Component where
  | root
  /-- A `.` at the front; elsewhere it is no step. -/
  | current
  | parent
  | name (n : Text)
  deriving DecidableEq, Repr

namespace Component

def text : Component → Text
  | root => []
  | current => ['.']
  | parent => ['.', '.']
  | name n => n

/-- The step that the part between two slashes stands for. -/
def ofPart? (part : Text) : Option Component :=
  if part = [] || part = ['.'] then none
  else if part = ['.', '.'] then some parent
  else some (name part)

/-- The step that the part before the first slash stands for. -/
def ofFirst? (part : Text) : Option Component :=
  if part = ['.'] then some current else ofPart? part

end Component

def isAbsolute (t : Text) : Bool := t.head? = some '/'

/-- The parts of a path: what stands before the first slash, and what stands after each. -/
def parts (t : Text) : Text × List Text :=
  match t.splitOn '/' with
  | [] => ([], [])
  | first :: others => (first, others)

def components (t : Text) : List Component :=
  let (first, others) := parts t
  let front := if isAbsolute t then [.root] else (Component.ofFirst? first).toList
  front ++ others.filterMap Component.ofPart?

/-- The names among the steps of a path. -/
def names (t : Text) : List Text :=
  (components t).filterMap fun
    | .name n => some n
    | _ => none

/-- The path that takes the given steps. -/
def ofComponents : List Component → Text
  | .root :: cs => '/' :: Text.join ['/'] (cs.map Component.text)
  | cs => Text.join ['/'] (cs.map Component.text)

/-- The path `target` as seen from `base`. -/
def join (base target : Text) : Text :=
  if isAbsolute target then target
  else if base.isEmpty || base.getLast? = some '/' then base ++ target
  else base ++ '/' :: target

/-- Takes one more step, the last one being first in the list: a `..` takes the step before it
back, unless there is none or it is the root. -/
def follow (taken : List Component) : Component → List Component
  | .current => taken
  | .parent =>
    match taken with
    | [] => [.parent]
    | .root :: _ => .parent :: taken
    | _ :: before => before
  | c => c :: taken

/-- The path without `.` steps and with `..` steps taken back. -/
def normalize (t : Text) : Text := ofComponents ((components t).foldl follow []).reverse

/-- Leaves out what satisfies `p` at the back of a list. -/
def dropBackWhile (p : Text → Bool) (l : List Text) : List Text :=
  (l.reverse.dropWhile p).reverse

/-- Whether a part after a slash is no step. -/
def isIdle (part : Text) : Bool := (Component.ofPart? part).isNone

/-- The path up to its last step as it is spelled, if the path takes a step that is not the root. -/
def parent? (t : Text) : Option Text :=
  let (first, others) := parts t
  match dropBackWhile isIdle others with
  | [] => if first.isEmpty then none else some []
  | others =>
    match first, dropBackWhile isIdle others.dropLast with
    | [], [] => some ['/']
    | first, kept => some (Text.join ['/'] (first :: kept))

/-- The name that the last step gives, if it gives one. -/
def fileName? (t : Text) : Option Text :=
  match (components t).getLast? with
  | some (.name n) => some n
  | _ => none

/-- The directory of a file, which is `.` where its path names none. -/
def directory (t : Text) : Text :=
  match parent? t with
  | none | some [] => ['.']
  | some d => d

end Stencil.Path
