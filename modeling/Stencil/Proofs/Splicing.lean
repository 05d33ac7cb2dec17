import Stencil.Proofs.Descent
import Stencil.Proofs.Splicer

/-! What becomes of a program when its imports are resolved: it is told how the walk over it meets
the imports and what it leaves, and what one import contributes. -/
namespace Stencil

open Stencil.Action

namespace Form

end Form

/-- The import that a node is, where it stands in a file. -/
def Use.ofParts (file : Text) (target : Node) (hash : Option Node) (params : Option (Params Node))
    (l : Location) : Use :=
  ⟨target.stamp file, hash.map (·.stamp file),
    params.map fun p => ⟨(p.map (·.stamp file)).entries, p.location.stamp file⟩, l.stamp file⟩

mutual

/-- The walk over a node of a file meets the imports among its statements, in order, and leaves
another node. -/
inductive Walk (file : Text) : Node → List Use → Node → Prop where
  | group {body body' : List Node} {us : List Use} {l : Location}
      (statements : Statements file body us body') :
      Walk file (.mk (.group body) l) us (.mk (.group body') (l.stamp file))
  | layer {form : Form (Node × List Use × Node)} {l : Location}
      (hgroup : ∀ body, form ≠ .group body) (huse : ∀ t h p, form ≠ .use t h p)
      (parts : ∀ q ∈ form.parts, Walk file q.1 q.2.1 q.2.2) :
      Walk file (.mk (form.map fun q => q.1) l) (form.parts.flatMap fun q => q.2.1)
        (.mk ((form.map fun q => q.2.2).mapLocation (·.stamp file)) (l.stamp file))

/-- The walk over statements takes those that are imports away, and goes on into the others. -/
inductive Statements (file : Text) : List Node → List Use → List Node → Prop where
  | nil : Statements file [] [] []
  | met {target : Node} {hash : Option Node} {params : Option (Params Node)} {l : Location}
      {ns left : List Node} {us : List Use} (rest : Statements file ns us left) :
      Statements file (.mk (.use target hash params) l :: ns)
        (.ofParts file target hash params l :: us) left
  | kept {n n' : Node} {ns left : List Node} {us vs : List Use} (first : Walk file n us n')
      (rest : Statements file ns vs left) :
      Statements file (n :: ns) (us ++ vs) (n' :: left)

end

/-- An import contributes nothing, with one warning, or the whole program of its content. -/
inductive Use.Contributes (host : Host) (c : Config) (chain : List Text) (u : Use) (j : Journal) :
    List Node → Journal → Prop where
  | skipped {n : Notice} {k : Journal} (hskips : u.Skips host c n)
      (hwarned : k.warnings = j.warnings ++ [n.diagnostic u.location]) :
      Contributes host c chain u j [] k
  | resolved {a : Aim} {t : Task} {i i' k : Journal} {depth : Nat} {ns : List Node}
      (hbound : u.BoundFor host c a) (hopen : ∀ n, ¬ u.Skips host c n)
      (haim : (u.aim host c).Runs j (some a) i) (henter : (u.enter host c chain a).Runs i t i')
      (hconfig : t.config = c.forImport a.target (c.directoryOf a.target) u.settings)
      (hcompile : (t.compile host depth).Runs i' ns k) : Contributes host c chain u j ns k

section Walks

variable {file : Text} {program : List Node}

end Walks

variable {host : Host} {c : Config} {u : Use} {chain : List Text} {j k : Journal}

/-- An import that is resolved contributes. -/
theorem Use.contributes_of_resolve {depth : Nat} {ns : List Node}
    (h : (u.resolve host c (compileImport host depth) chain).Runs j ns k) :
    u.Contributes host c chain j ns k := by
  rw [resolve_eq] at h
  obtain ⟨a?, i, haim, h₁⟩ := runs_bind.1 h
  cases a? with
  | none =>
    obtain ⟨rfl, rfl⟩ := runs_pure.1 h₁
    obtain ⟨n, hskips, hwarned⟩ := runs_aim_none haim
    exact .skipped hskips hwarned
  | some a =>
    obtain ⟨t, i', henter, h₂⟩ := runs_bind.1 h₁
    obtain ⟨hbound, -⟩ := runs_aim_some haim
    have hconfig := (runs_enter henter).2.2.1
    rw [hbound.overrides] at hconfig
    exact .resolved hbound (fun _ => hbound.not_skips) haim henter hconfig (runs_within.1 h₂)

end Stencil
