import Stencil.Shell.Execution

/-! Starting programs in a directory, and what comes of it. -/
namespace Stencil.Shell

open Running

/-- What a run wrote, its status unless it was killed, and the directory it left. -/
structure Outcome where
  stdout : Bytes
  stderr : Bytes
  status : Option Nat
  directory : Directory

/-- How deep commands may stand in commands, and how often a loop may run. -/
def limit : Nat := 100000000

/-- How long an argument may be. -/
def maxArgument : Nat := 131071

/-- A shell in a directory, with the variables that are exported. -/
def State.start (d : Directory) (exported : Entries Text Text) : State where
  directory := d
  channels := #[.nothing, .sink [], .sink []]
  place := .folder []
  path := '/' :: toUtf8 Directory.ownName
  bindings := exported.map fun (name, t) => (name, ⟨some t, true, false⟩)
  functions := []
  arguments := []
  name := "sh".toList
  status := 0
  descriptors := [(0, 0), (1, 1), (2, 2)]
  flags := []
  line := 1
  caller := none
  traps := []
  locals := []
  tested := false
  process := 4000
  awaited := false
  jobs := []
  optionOffset := 0
  mask := 18
  captured := 0
  loops := 0

/-- Runs a program that is found by its name, unless the system refuses to. -/
def start (name : Text) (args : List Text) : Running (Except String Unit) := do
  if (name :: args).any fun t => t.any (· = '\x00') then
    return .error "nul byte found in provided data"
  if args.any fun t => maxArgument < t.length then
    return .error "Argument list too long (os error 7)"
  let command := Run.run limit
  let missing := Except.error (PathFault.message .missing)
  match ← Found.ofName name with
  | .missing => return missing
  | .denied => return .error (PathFault.message .denied)
  | .utility key => do
    Run.launchUtility command limit name key args
    return .ok ()
  | .file path content =>
    match interpreter? content with
    | none => return .error "Exec format error (os error 8)"
    | some (program, given) =>
      match ← Found.ofName program with
      | .missing => return missing
      | .denied => return .error (PathFault.message .denied)
      | _ => do
        Run.launch command limit program (given ++ path :: args)
        return .ok ()

/-- What comes of a program, unless the system refuses to run it. -/
def outcome (d : Directory) (exported : Entries Text Text) (name : Text) (args : List Text) :
    Except String Outcome :=
  let (result, s) := (start (toUtf8 name) (args.map toUtf8)).run.run (.start d exported)
  let written (i : Nat) : Bytes := Encoding.octets (s.channels.getD i .nothing).written
  match result with
  | .ok (.error reason) => .error reason
  | .ok (.ok ()) => .ok ⟨written 1, written 2, some s.status, s.directory⟩
  | .error _ => .ok ⟨written 1, written 2, none, s.directory⟩

end Stencil.Shell
