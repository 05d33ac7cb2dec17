import Stencil.Proofs.Deeds

/-! Functions and the definitions that make them. Whatever a program binds, the body of a function
that it calls stands in the program itself, so that a rendering visits nothing else. -/
namespace Stencil

open Stencil.Rendering

/-- A function is made by a definition that stands in a node. -/
def Binding.MadeIn (root : Node) (b : Binding) : Prop :=
  ∀ names body, b = .function names body → ∃ name params l,
    (Node.mk (.define name params body) l).Occurs root ∧ names = params.keys

section Keeping

variable {host : Host} {c : Config} {v : Node → Rendering Text} {root body : Node}
  {form : Form Node} {bindings : Scope} {s t : Session}

/-- A call is of a function that the program makes, and binds its parameters. -/
theorem Calls.exists_define (h : Calls v s form body bindings t)
    (ht : t.scopes.Every fun p => p.2.MadeIn root) : ∃ name params l texts named,
      (Node.mk (.define name params body) l).Occurs root ∧
      texts.length = params.keys.length ∧ bindings = callBindings params.keys texts named := by
  obtain ⟨-, -, hbound, hlength⟩ := h
  obtain ⟨name, params, l, hdefine, rfl⟩ := ht.of_lookup? hbound _ _ rfl
  exact ⟨name, params, l, _, _, hdefine, hlength, rfl⟩

/-- What the bindings that a program makes are like, all bindings stay like. -/
theorem lastingOn_every {Q : Text × Binding → Prop} (made : ∀ p, Q p → p.2.MadeIn root)
    (called : ∀ (params : Params Node) texts named,
      (∃ name body l, (Node.mk (.define name params body) l).Occurs root) →
        ∀ p ∈ callBindings params.keys texts named, Q p)
    (assigned : ∀ name value, isReserved name = false → name.head? ≠ some Scopes.sigil →
      Q (Scopes.variableName name, .text value))
    (defined : ∀ name (params : Params Node) body, (Binding.function params.keys body).MadeIn root →
      isReserved name = false → name.head? ≠ some Scopes.sigil →
        Q (name, .function params.keys body)) :
    LastingOn host c (fun n => n.Occurs root) fun s => s.scopes.Every Q where
  part hn hq := hn.part hq
  body _ hcalls ht := by
    obtain ⟨name, params, l, _, _, hdefine, -⟩ :=
      hcalls.exists_define fun scope hscope p hp => made p (ht scope hscope p hp)
    exact hdefine.part (by simp [Form.parts, Form.ownParts])
  opened _ hcalls ht := by
    obtain ⟨name, params, l, texts, named, hdefine, -, rfl⟩ :=
      hcalls.exists_define fun scope hscope p hp => made p (ht scope hscope p hp)
    exact Session.every_opened ht (called params texts named ⟨name, _, l, hdefine⟩)
  closed hs := Scopes.Every.pop hs
  done {_ _ l _ _ _ _} hn hdoes ht := Deed.every_run ht fun p hbinds => by
    cases hbinds with
    | assigned hname hsigil => exact assigned _ _ hname hsigil
    | defined hname hsigil =>
      cases hdoes with
      | @define name _ params =>
        refine defined _ params _ ?_ hname hsigil
        rintro _ _ ⟨rfl, rfl⟩
        exact ⟨name, params, l, hn, rfl⟩

theorem lastingOn_made : LastingOn host c (fun n => n.Occurs root) fun s =>
    s.scopes.Every fun p => p.2.MadeIn root := by
  refine lastingOn_every (fun _ h => h) ?_ ?_ ?_
  · intro params texts named _ p hp
    obtain hp | hp := List.mem_append.1 hp
    · obtain ⟨_, -, rfl⟩ := List.mem_map.1 hp
      exact nofun
    · obtain ⟨_, -, rfl⟩ := List.mem_map.1 hp
      exact nofun
  · exact fun _ _ _ _ => nofun
  · exact fun _ _ _ h _ _ => h

end Keeping

end Stencil
