import Stencil.Surroundings
import Stencil.Journal

/-! What is known so far of surroundings that can only be asked from outside. A run on what is
known shows what it asked for first that is not known yet. -/
namespace Stencil

/-- The content of paths, or why there is none, and the values of names in the environment. -/
structure Snapshot where
  contents : Entries Text (Except String Bytes)
  values : Entries Text (Option Text)

namespace Snapshot

variable (s : Snapshot)

def empty : Snapshot := ⟨[], []⟩

def insertContent (path : Text) (content : Except String Bytes) : Snapshot :=
  { s with contents := s.contents.insert path content }

def insertValue (name : Text) (value : Option Text) : Snapshot :=
  { s with values := s.values.insert name value }

/-- Whether the answer to what the host was asked is known. -/
def knows : Call → Bool
  | .probe path _ | .read path => s.contents.has path
  | .environment name => s.values.has name
  | .fetch _ | .exec _ | .evaluate _ => true

/-- What was asked first of all that is not known. -/
def missing? (calls : List Call) : Option Call := calls.find? (!s.knows ·)

def environment (name : Text) : Option Text := (s.values.get? name).join

def read (path : Text) : Except String Bytes := (s.contents.get? path).getD (.error "unknown")

/-- The host that knows what is known, and no programs but the shell, whose scripts run in an empty
directory and environment. -/
def host : Host :=
  let shell := (⟨.empty, true, []⟩ : Surroundings).host
  { shell with
    answers := fun calls => { shell.answers calls with
      isFile := fun path => (s.read path).isOk
      read := s.read }
    environment := s.environment
    nesting := s.contents.length }

/-- Nothing that was asked is missing exactly if all of it is known. -/
theorem missing?_eq_none_iff (calls : List Call) :
    s.missing? calls = none ↔ ∀ c ∈ calls, s.knows c = true := by
  simp [missing?]

end Snapshot
end Stencil
