import Stencil.Proofs.Configuration
import Stencil.Template

/-! A template is under the values that settings have, and its imports are under those that are
forced. In what order they were set does not matter: configurations that agree in the values render
every template alike. -/
namespace Stencil

namespace Config

/-- Every setting has the same value, and the same value is forced. -/
structure Agrees (c c' : Config) : Prop where
  values : ∀ key, c.values.get? key = c'.values.get? key
  forced : ∀ key, c.forced.last? key = c'.forced.last? key

namespace Agrees

variable {c c' : Config}

theorem get (h : c.Agrees c') (key : Text) : c.get key = c'.get key := by
  rw [Config.get, Config.get, h.values]

theorem enabled (h : c.Agrees c') (f : Feature) : c.enabled f = c'.enabled f := by
  rw [Config.enabled, Config.enabled, h.get]

theorem fileName (h : c.Agrees c') : c.fileName = c'.fileName := h.get _

theorem filePath (h : c.Agrees c') : c.filePath = c'.filePath := h.get _

theorem encoding (h : c.Agrees c') : c.encoding = c'.encoding := h.get _

theorem delimiters (h : c.Agrees c') : c.delimiters = c'.delimiters := by
  simp only [Config.delimiters, h.get]

theorem set (h : c.Agrees c') (key value : Text) : (c.set key value).Agrees (c'.set key value) where
  values k := by simp only [Config.set, Entries.get?_insert, h.values]
  forced := h.forced

theorem restoreForced (h : c.Agrees c') : c.restoreForced.Agrees c'.restoreForced where
  values key := by simp only [Config.restoreForced, Entries.get?_insertAll, h.values, h.forced]
  forced := h.forced

theorem forImport (h : c.Agrees c') (target path : Text) (overrides : Entries Text Text) :
    (c.forImport target path overrides).Agrees (c'.forImport target path overrides) := by
  have hforced : ∀ key, (c.forImport target path overrides).forced.last? key =
      (c'.forImport target path overrides).forced.last? key := by
    intro key
    rw [last?_forced_forImport, last?_forced_forImport, h.forced]
  refine ⟨fun key => ?_, hforced⟩
  rw [get?_values_forImport, get?_values_forImport, hforced]

end Agrees

end Config

namespace Action

variable {α β γ : Type}

/-- Two runs note and ask the same, and fail alike or give related results. -/
def Alike (R : α → α → Prop) (a b : Action α) : Prop :=
  ∀ j, (∃ x y k, a.Runs j x k ∧ b.Runs j y k ∧ R x y) ∨ ∃ s k, a.Stops j s k ∧ b.Stops j s k

section Alike

variable {R : α → α → Prop} {S : β → β → Prop} {a b : Action α} {f g : α → Action β}

theorem Alike.pure {x y : α} (h : R x y) : Alike R (pure x) (pure y) :=
  fun j => .inl ⟨x, y, j, rfl, rfl, h⟩

theorem Alike.refl (a : Action α) : Alike (· = ·) a a := by
  intro j
  obtain ⟨x, k, hx⟩ | ⟨s, k, hs⟩ := runs_or_stops a j
  · exact .inl ⟨x, x, k, hx, hx, rfl⟩
  · exact .inr ⟨s, k, hs, hs⟩

theorem Alike.bind (h : Alike R a b) (hf : ∀ x y, R x y → Alike S (f x) (g y)) :
    Alike S (a >>= f) (b >>= g) := by
  intro j
  obtain ⟨x, y, i, hx, hy, hxy⟩ | ⟨s, k, hs, hs'⟩ := h j
  · obtain ⟨x', y', k, hx', hy', hxy'⟩ | ⟨s, k, hs, hs'⟩ := hf x y hxy i
    · exact .inl ⟨x', y', k, runs_bind.2 ⟨x, i, hx, hx'⟩, runs_bind.2 ⟨y, i, hy, hy'⟩, hxy'⟩
    · exact .inr ⟨s, k, stops_bind.2 (.inr ⟨x, i, hx, hs⟩), stops_bind.2 (.inr ⟨y, i, hy, hs'⟩)⟩
  · exact .inr ⟨s, k, stops_bind.2 (.inl hs), stops_bind.2 (.inl hs')⟩

theorem Alike.bind_eq (h : Alike R a b) (hf : ∀ x y, R x y → f x = g y) : a >>= f = b >>= g := by
  refine ext fun j => ?_
  rw [outcome_bind, outcome_bind]
  obtain ⟨x, y, k, hx, hy, hxy⟩ | ⟨s, k, hs, hs'⟩ := h j
  · rw [show a.outcome j = _ from hx, show b.outcome j = _ from hy]
    exact congrArg (outcome · k) (hf x y hxy)
  · rw [show a.outcome j = _ from hs, show b.outcome j = _ from hs']

theorem Alike.foldlM {f g : β → γ → Action β} (hf : ∀ x y z, S x y → Alike S (f x z) (g y z))
    (zs : List γ) {x y : β} (h : S x y) : Alike S (zs.foldlM f x) (zs.foldlM g y) := by
  induction zs generalizing x y with
  | nil => exact .pure h
  | cons z zs ih =>
    rw [List.foldlM_cons, List.foldlM_cons]
    exact (hf x y z h).bind fun x y h => ih h

end Alike

end Action

variable {host : Host} {c c' : Config}

section Reading

open Stencil.Action

/-- A source is given back with configurations that agree. -/
def Together {α : Type} (p q : α × Config) : Prop := p.1 = q.1 ∧ p.2.Agrees q.2

theorem Together.elim {α : Type} {P : α × Config → α × Config → Prop}
    (hP : ∀ x c c', c.Agrees c' → P (x, c) (x, c')) : ∀ p q, Together p q → P p q := by
  rintro ⟨x, c⟩ ⟨x', c'⟩ ⟨rfl, h⟩
  exact hP x c c' h

theorem alike_applyEntry (h : c.Agrees c') (l : Location) (entry : Text) :
    Alike Config.Agrees (MetaBlock.applyEntry l c entry) (MetaBlock.applyEntry l c' entry) := by
  unfold MetaBlock.applyEntry
  split
  · exact fun j => .inr ⟨_, j, rfl, rfl⟩
  · exact .pure h
  · next key value _ _ =>
    have hset : Alike Config.Agrees (pure (c.set key value)) (pure (c'.set key value)) :=
      .pure (h.set key value)
    dsimp only
    split
    · exact hset
    · exact (Alike.refl _).bind fun _ _ _ => hset

theorem alike_preprocess (h : c.Agrees c') (source : Text) :
    Alike Together (preprocess source c) (preprocess source c') := by
  have happly : ∀ c c' block, c.Agrees c' →
      Alike Config.Agrees (MetaBlock.apply c block) (MetaBlock.apply c' block) := by
    intro c c' block h
    unfold MetaBlock.apply
    rw [h.fileName]
    exact Alike.foldlM (fun _ _ entry h => alike_applyEntry h _ entry) _ h
  refine (Alike.foldlM happly _ h).bind fun c c' h => ?_
  have hrest : ∀ rest : Text,
      Alike Together (pure (rest, c.restoreForced)) (pure (rest, c'.restoreForced)) :=
    fun rest => .pure ⟨rfl, h.restoreForced⟩
  rw [h.fileName]
  dsimp only
  split
  · exact (Alike.refl _).bind fun _ _ _ => hrest _
  · exact hrest _

theorem alike_read (h : c.Agrees c') (source : Text) :
    Alike Together (read source c) (read source c') := by
  refine (alike_preprocess h source).bind (Together.elim fun rest c c' h => ?_)
  dsimp only
  rw [h.fileName, h.delimiters]
  refine (Alike.refl _).bind fun tokens _ htokens => ?_
  obtain rfl := htokens
  refine (Alike.refl _).bind fun program _ hprogram => ?_
  obtain rfl := hprogram
  exact .pure ⟨rfl, h⟩

end Reading

section Importing

variable {nested : Text → Config → List Text → Action (List Node)}

theorem Use.find_congr (h : c.Agrees c') (u : Use) (chain : List Text) (target : Text) :
    u.find host c chain target = u.find host c' chain target := by
  simp only [Use.find, h.enabled, h.filePath]

theorem Use.resolve_congr (h : c.Agrees c')
    (hnested : ∀ {c c'}, c.Agrees c' → ∀ content chain,
      nested content c chain = nested content c' chain)
    (u : Use) (chain : List Text) :
    u.resolve host c nested chain = u.resolve host c' nested chain := by
  have hinner : ∀ target path overrides content chain,
      nested content (c.forImport target path overrides) chain =
        nested content (c'.forImport target path overrides) chain :=
    fun target path overrides => hnested (h.forImport target path overrides)
  have hencoding : ∀ target path overrides, (c.forImport target path overrides).encoding =
      (c'.forImport target path overrides).encoding :=
    fun target path overrides => (h.forImport target path overrides).encoding
  simp only [Use.resolve, Use.targetText?, h.enabled, Use.find_congr h, hinner, hencoding]

theorem resolveImports_congr (h : c.Agrees c')
    (hnested : ∀ {c c'}, c.Agrees c' → ∀ content chain,
      nested content c chain = nested content c' chain)
    (chain : List Text) (program : List Node) :
    resolveImports host c nested chain program = resolveImports host c' nested chain program := by
  simp only [resolveImports, h.fileName, Use.resolve_congr h hnested]

theorem compileImport_congr (h : c.Agrees c') (depth : Nat) (content : Text) (chain : List Text) :
    compileImport host depth content c chain = compileImport host depth content c' chain := by
  induction depth generalizing c c' content chain with
  | zero => rfl
  | succ depth ih =>
    refine (alike_read h content).bind_eq (Together.elim fun program c c' h => ?_)
    exact resolveImports_congr h (fun h content chain => ih h content chain) chain program

theorem analyze_congr (h : c.Agrees c') (program : List Node) :
    analyze host c program = analyze host c' program := by
  unfold analyze
  rw [h.filePath, h.fileName]
  exact resolveImports_congr h (fun h => compileImport_congr h _) _ program

end Importing

section Visiting

open Rendering

variable (h : c.Agrees c')
include h

theorem gate_congr (f : Feature) (l : Location) : gate c f l = gate c' f l := by
  rw [gate, gate, h.enabled]

theorem decodeContent_congr (bytes : Bytes) (l : Location) :
    decodeContent c bytes l = decodeContent c' bytes l := by
  rw [decodeContent, decodeContent, h.encoding]

theorem runBuiltin_congr (b : Builtin) (args : List Text) (l : Location) :
    runBuiltin host c b args l = runBuiltin host c' b args l := by
  simp only [runBuiltin, readEnvironment, gate_congr h]

/-- A node is visited alike under configurations that agree. -/
theorem visit_congr (steps : Nat) (n : Node) : visit host c steps n = visit host c' steps n := by
  induction steps generalizing n with
  | zero =>
    obtain ⟨form, l⟩ := n
    rfl
  | succ steps ih =>
    obtain ⟨form, l⟩ := n
    have hvisit : visit host c steps = visit host c' steps := funext ih
    cases form <;> simp only [visit, hvisit, runCall, runBuiltin_congr h, readUrl, readFile,
      runCommand, evaluate, gate_congr h, decodeContent_congr h, h.filePath]

theorem interpret_congr (steps : Nat) (program : List Node) :
    interpret steps host c program = interpret steps host c' program := by
  have hvisit : visit host c steps = visit host c' steps := funext (visit_congr h steps)
  unfold interpret
  rw [hvisit, h.fileName]

theorem render_congr (steps : Nat) (source : Text) :
    render steps host source c = render steps host source c' := by
  have hcompile : Action.Alike Together (compile host source c) (compile host source c') := by
    refine (alike_read h source).bind (Together.elim fun program c c' h => ?_)
    dsimp only
    rw [analyze_congr h]
    refine (Action.Alike.refl _).bind fun program _ hprogram => ?_
    obtain rfl := hprogram
    exact .pure ⟨rfl, h⟩
  exact hcompile.bind_eq (Together.elim fun program c c' h => interpret_congr h steps program)

end Visiting

end Stencil
