import Stencil.Proofs.Analysis

/-! Imports resolved in one walk over a program, which takes them out where it meets them and puts
what they bring in on a list beside it. -/
namespace Stencil

variable {ν μ : Type} {m : Type → Type} [Monad m]

/-- Replaces the values in turn. -/
def Params.mapM (f : ν → m μ) (p : Params ν) : m (Params μ) := do
  let entries ← p.entries.mapM fun e => do return (e.1, ← e.2.mapM f)
  return ⟨entries, p.location⟩

/-- Replaces the parts in turn, those of the parameter list last. -/
def Form.mapM (f : ν → m μ) : Form ν → m (Form μ)
  | group body => return group (← body.mapM f)
  | raw text => return raw text
  | call name params args => do
    let args ← args.mapM f
    return call name (← params.mapM (·.mapM f)) args
  | define name params body => do
    let name ← f name
    let body ← f body
    return define name (← params.mapM f) body
  | branch condition yes no => return branch (← f condition) (← f yes) (← no.mapM f)
  | choice subject cases => return choice (← f subject) (← cases.mapM f)
  | case value body => return case (← f value) (← f body)
  | loop first condition next body =>
    return loop (← f first) (← f condition) (← f next) (← f body)
  | url target => return url (← f target)
  | file target => return file (← f target)
  | use target hash params => do
    let target ← f target
    let hash ← hash.mapM f
    return use target hash (← params.mapM (·.mapM f))
  | exec command => return exec (← f command)
  | expression source => return expression source
  | comment text => return comment text

/-- The import that a node is, if it is one. -/
def Node.use? : Node → Option Use
  | mk (.use target hash params) l => some ⟨target, hash, params, l⟩
  | _ => none

/-- An action with a list beside it for what imports bring in. -/
abbrev Splicing := StateT (List Node) Action

namespace Splicing

-- Imports are resolved by `resolve`.
variable (resolve : Use → Action (List Node))

/-- Puts what an import brings in behind what is on the list. -/
def take (u : Use) : Splicing Unit := do
  let ns ← resolve u
  modify (· ++ ns)

/-- The statements of a body that are no imports, each walked over; the imports are taken out. -/
def body : List (Node × Splicing Node) → Splicing (List Node)
  | [] => return []
  | (n, walk) :: rest =>
    match n.use? with
    | some u => do
      take resolve u
      body rest
    | none => return (← walk) :: (← body rest)

/-- The walk over a node. -/
def children : Node → Splicing Node :=
  Node.foldWith fun form l =>
    match form with
    | .group ns => return .mk (.group (← body resolve ns)) l
    | form => return .mk (← form.mapM Prod.snd) l

/-- Resolves the imports of a program in one walk. -/
def walk (host : Host) (c : Config)
    (nested : Text → Config → List Text → Action (List Node)) (chain : List Text)
    (program : List Node) : Action (List Node) := do
  let resolve (u : Use) := u.resolve host c nested chain
  let stamped := program.map (Node.stamp c.fileName)
  let (left, imported) ← (body resolve (stamped.map fun n => (n, children resolve n))).run []
  return imported ++ left

/-- The program of content that is imported, with one walk over each file. -/
def content (host : Host) : Nat → Text → Config → List Text → Action (List Node)
  | 0, _, _, _ => throw .exhausted
  | depth + 1, source, c, chain => do
    let (program, c) ← read source c
    walk host c (content host depth) chain program

end Splicing

section Passes

variable [LawfulMonad m] {g : ν → m Unit} {h : ν → μ} {f : ν → m μ}

end Passes

namespace Splicing

variable {resolve : Use → Action (List Node)}

variable {host : Host} {c : Config} {chain : List Text} {program : List Node}

end Splicing

end Stencil
