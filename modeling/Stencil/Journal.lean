import Stencil.Diagnostic
import Stencil.Failure
import Stencil.Host

/-! What a run leaves behind besides its result: the diagnostics and what the host was asked. Both
are kept when a run fails. -/
namespace Stencil

/-- Diagnostics and calls, each in the order in which they came. -/
structure Journal where
  diagnostics : List Diagnostic
  calls : List Call
  deriving DecidableEq, Repr

namespace Journal

def empty : Journal := ⟨[], []⟩

def note (n : Notice) (location : Location) (j : Journal) : Journal :=
  { j with diagnostics := j.diagnostics ++ [n.diagnostic location] }

def call (c : Call) (j : Journal) : Journal := { j with calls := j.calls ++ [c] }

end Journal

/-- Why a run has no result. -/
inductive Stop where
  | failed (f : Failure)
  /-- The steps allowed are used up. -/
  | exhausted
  deriving DecidableEq, Repr

/-- A run that keeps a journal. -/
abbrev Action := ExceptT Stop (StateM Journal)

namespace Action

def note (n : Notice) (location : Location) : Action Unit := modify (Journal.note n location)

def call (c : Call) : Action Unit := modify (Journal.call c)

/-- What the host answers now. -/
def answers (host : Host) : Action Answers := do return host.answers (← get).calls

def fail {α : Type} (cause : Cause) (location : Location) : Action α :=
  throw (.failed ⟨[], cause, location⟩)

/-- Runs an action whose failures are those of an import. -/
def within {α : Type} (i : Include) (a : Action α) : Action α :=
  tryCatch a fun
    | .failed f => throw (.failed (f.within i))
    | .exhausted => throw .exhausted

/-- The result of a run and its journal. -/
def start {α : Type} (a : Action α) : Except Stop α × Journal := a.run.run .empty

end Action
end Stencil
