import Stencil.Proofs.Variables

/-! Scopes as they come and go. Told in the order in which they were opened, each has a link to the
one that it was opened in, and searches follow the links. Whatever is done to scopes, the link
of a scope leads to the one before it, searches give what the innermost scope says that binds a name
at all, and a binding is visible from where it is made until its scope is closed. -/
namespace Stencil

namespace Entries

variable {κ α : Type} [DecidableEq κ] {key : κ} {e e' : Entries κ α}

theorem keys_erase_sublist : (keys (erase key e)).Sublist (keys e) := by
  induction e with
  | nil => exact .slnil
  | cons p r ih =>
    unfold erase
    split
    · exact ih.cons p.1
    · exact ih.cons_cons p.1

theorem get?_perm (h : (keys e).Nodup) (hperm : e.Perm e') : get? key e = get? key e' := by
  induction hperm with
  | nil => rfl
  | cons p _ ih =>
    obtain ⟨-, hrest⟩ := List.nodup_cons.1 h
    rw [get?, get?, ih hrest]
  | swap p q r =>
    have hne : q.1 ≠ p.1 := by
      have hmem := (List.nodup_cons.1 h).1
      exact fun heq => hmem (heq ▸ List.mem_cons_self)
    by_cases hp : p.1 = key
    · have hq : q.1 ≠ key := fun hq => hne (hq.trans hp.symm)
      simp [get?, hp, hq]
    · simp [get?, hp]
  | trans hfirst _ ih ih' =>
    rw [ih h, ih' ((hfirst.map Prod.fst).nodup_iff.1 h)]

end Entries

/-- Scopes in the order in which they were opened, each linked to the one around it. -/
structure Arena where
  cells : List (Scope × Option Nat)

namespace Scopes

/-- What can be done to scopes. A scope that is not there may be named. -/
inductive Operation where
  | push
  | pop
  | define (i : Nat) (name : Text) (b : Binding)
  | erase (i : Nat) (name : Text)

/-- The scopes after an operation. -/
def perform (s : Scopes) : Operation → Scopes
  | .push => s.push
  | .pop => s.pop
  | .define i name b => s.define i name b
  | .erase i name => s.erase i name

/-- The scopes after operations, from one scope without names on. -/
def history (ops : List Operation) : Scopes := ops.foldl perform initial

/-- The number before a number. -/
def previous? : Nat → Option Nat
  | 0 => none
  | i + 1 => some i

/-- The scopes with their links, each to the one before it. -/
def arena (s : Scopes) : Arena :=
  ⟨(s.inner :: s.outer).reverse.mapIdx fun i scope => (scope, previous? i)⟩

end Scopes

namespace Arena

variable (a : Arena)

def initial : Arena := ⟨[([], none)]⟩

def current : Nat := a.cells.length - 1

/-- Opens a scope in the one that was opened last. -/
def push : Arena := ⟨a.cells ++ [([], some a.current)]⟩

/-- Closes the scope that was opened last, unless it is the only one. -/
def pop : Arena := if 1 < a.cells.length then ⟨a.cells.dropLast⟩ else a

def modify (i : Nat) (f : Scope → Scope) : Arena := ⟨a.cells.modify i (Prod.map f id)⟩

def parent? (i : Nat) : Option Nat := a.cells[i]?.bind Prod.snd

/-- The arena after an operation. -/
def perform : Scopes.Operation → Arena
  | .push => a.push
  | .pop => a.pop
  | .define i name b => a.modify i (Entries.insert name b)
  | .erase i name => a.modify i (Entries.erase name)

/-- The arena after operations, from one scope without names on. -/
def history (ops : List Scopes.Operation) : Arena := ops.foldl perform initial

/-- The scopes on a way along the links, up to where there is no link or no scope. -/
inductive Passes : Option Nat → List Scope → Prop where
  | ends : Passes none []
  | leaves {i : Nat} (hcell : a.cells[i]? = none) : Passes (some i) []
  | goes {i : Nat} {scope : Scope} {link : Option Nat} {way : List Scope}
      (hcell : a.cells[i]? = some (scope, link)) (rest : Passes link way) :
      Passes (some i) (scope :: way)

theorem Passes.unique {a : Arena} {link : Option Nat} {way way' : List Scope}
    (h : a.Passes link way) (h' : a.Passes link way') : way = way' := by
  induction h generalizing way' with
  | ends =>
    cases h'
    rfl
  | leaves hcell =>
    cases h' with
    | leaves => rfl
    | goes hcell' => simp [hcell] at hcell'
  | goes hcell _ ih =>
    cases h' with
    | leaves hcell' => simp [hcell] at hcell'
    | goes hcell' rest =>
      obtain ⟨rfl, rfl⟩ : _ ∧ _ := by simpa [hcell] using hcell'
      rw [ih rest]

end Arena

namespace Scopes

variable {s : Scopes} {i j k : Nat} {name key : Text} {b : Binding} {scope : Scope}
  {ops : List Operation} {op : Operation}

section Linking

theorem scope?_eq_reverse : s.scope? i = (s.inner :: s.outer).reverse[i]? := by
  rw [scope?_eq]
  have hlength : (s.inner :: s.outer).length = s.depth := List.length_cons
  split
  · next hi =>
    rw [List.getElem?_reverse (hlength ▸ hi), hlength]
    rfl
  · next hi =>
    refine (List.getElem?_eq_none ?_).symm
    rw [List.length_reverse, hlength]
    omega

theorem scope?_eq_none_iff : s.scope? i = none ↔ s.depth ≤ i := by
  rw [scope?_eq_reverse, List.getElem?_eq_none_iff, List.length_reverse]
  rfl

@[simp] theorem length_arena : s.arena.cells.length = s.depth := by
  simp [arena, depth]

theorem getElem?_arena :
    s.arena.cells[i]? = (s.scope? i).map fun scope => (scope, previous? i) := by
  rw [arena, List.getElem?_mapIdx, scope?_eq_reverse]

theorem arena_eq_of_getElem? {a : Arena} (h : ∀ i : Nat, s.arena.cells[i]? = a.cells[i]?) :
    s.arena = a :=
  congrArg Arena.mk (List.ext_getElem? h)

theorem scope?_push : s.push.scope? i = if i = s.depth then some [] else s.scope? i := by
  by_cases hi : i < s.depth
  · rw [if_neg (Nat.ne_of_lt hi)]
    exact scope?_cons hi
  · split
    · next heq =>
      subst heq
      exact congrArg List.head? s.push.levels_current
    · have hdepth : s.push.depth ≤ i := by
        have : s.push.depth = s.depth + 1 := rfl
        omega
      rw [scope?_eq_none_iff.2 hdepth, scope?_eq_none_iff.2 (Nat.le_of_not_lt hi)]

theorem depth_pop : s.pop.depth = if 1 < s.depth then s.depth - 1 else s.depth := by
  obtain ⟨inner, _ | ⟨scope, outer⟩⟩ := s
  · rfl
  · simp [pop, depth]

theorem scope?_pop_eq : s.pop.scope? i = if i < s.pop.depth then s.scope? i else none := by
  split
  · next hi =>
    rw [depth_pop] at hi
    split at hi
    · exact scope?_pop (by unfold current depth at *; omega)
    · next hdepth =>
      have houter : s.outer = [] := by
        rw [← List.length_eq_zero_iff]
        unfold depth at hdepth
        omega
      rw [pop, houter]
  · next hi => exact scope?_eq_none_iff.2 (Nat.le_of_not_lt hi)

theorem arena_push : s.push.arena = s.arena.push := by
  refine arena_eq_of_getElem? fun i => ?_
  rw [getElem?_arena, scope?_push, Arena.push, Arena.current, length_arena]
  by_cases hi : i < s.depth
  · have hne : i ≠ s.depth := Nat.ne_of_lt hi
    rw [if_neg hne, List.getElem?_append_left (by rwa [length_arena]), getElem?_arena]
  · rw [List.getElem?_append_right (by rw [length_arena]; omega), length_arena]
    by_cases heq : i = s.depth
    · subst heq
      rw [if_pos rfl, Nat.sub_self]
      rfl
    · have hnone : s.scope? i = none := scope?_eq_none_iff.2 (by omega)
      rw [if_neg heq, hnone, List.getElem?_eq_none]
      · rfl
      · rw [List.length_singleton]
        omega

theorem arena_pop : s.pop.arena = s.arena.pop := by
  refine arena_eq_of_getElem? fun i => ?_
  rw [getElem?_arena, scope?_pop_eq, depth_pop, Arena.pop, length_arena]
  split
  · next hdepth =>
    rw [List.getElem?_dropLast, length_arena, getElem?_arena]
    split <;> rfl
  · rw [getElem?_arena]
    split
    · rfl
    · next hi => rw [scope?_eq_none_iff.2 (Nat.le_of_not_lt hi)]

theorem arena_modify (f : Scope → Scope) : (s.modify i f).arena = s.arena.modify i f := by
  refine arena_eq_of_getElem? fun k => ?_
  rw [getElem?_arena, scope?_modify, Arena.modify, List.getElem?_modify, getElem?_arena]
  by_cases hk : k = i
  · subst hk
    cases s.scope? k <;> simp
  · rw [if_neg hk]
    cases s.scope? k <;> simp [Ne.symm hk]

/-- Scopes and their arena go the same way. -/
theorem arena_perform : (s.perform op).arena = s.arena.perform op := by
  cases op with
  | push => exact arena_push
  | pop => exact arena_pop
  | define i name b => exact arena_modify _
  | erase i name => exact arena_modify _

theorem history_append (ops : List Operation) (op : Operation) :
    history (ops ++ [op]) = (history ops).perform op := List.foldl_append ..

theorem arena_history : Arena.history ops = (history ops).arena := by
  induction ops using List.reverseRecOn with
  | nil => rfl
  | append_singleton ops op ih =>
    rw [history_append, arena_perform, ← ih]
    exact List.foldl_append ..

theorem parent?_arena : s.arena.parent? i = if 0 < i ∧ i < s.depth then some (i - 1) else none := by
  rw [Arena.parent?, getElem?_arena]
  by_cases hi : i < s.depth
  · obtain ⟨scope, hscope⟩ : ∃ scope, s.scope? i = some scope := by
      refine Option.ne_none_iff_exists'.1 fun hnone => ?_
      have := scope?_eq_none_iff.1 hnone
      omega
    cases i with
    | zero => simp [hscope, previous?]
    | succ i => simp [hscope, hi, previous?]
  · simp [scope?_eq_none_iff.2 (Nat.le_of_not_lt hi), hi]

/-- The way along the links leads through the scopes around a scope, and ends. -/
theorem passes_arena : s.arena.Passes (some i) (s.levels i) := by
  by_cases hi : i < s.depth
  · induction i with
    | zero =>
      obtain ⟨scope, hlevels⟩ := s.levels_zero
      have hcell : s.arena.cells[0]? = some (scope, none) := by
        rw [getElem?_arena, scope?, hlevels]
        rfl
      rw [hlevels]
      exact .goes hcell .ends
    | succ i ih =>
      obtain ⟨scope, hlevels⟩ := levels_succ hi
      have hcell : s.arena.cells[i + 1]? = some (scope, some i) := by
        rw [getElem?_arena, scope?, hlevels]
        rfl
      rw [hlevels]
      exact .goes hcell (ih (Nat.lt_of_succ_lt hi))
  · have hnone : s.arena.cells[i]? = none := by
      rw [List.getElem?_eq_none_iff, length_arena]
      omega
    rw [levels, if_neg hi]
    exact .leaves hnone

theorem passes_arena_iff {way : List Scope} :
    s.arena.Passes (some i) way ↔ way = s.levels i := by
  constructor
  · exact fun h => h.unique passes_arena
  · rintro rfl
    exact passes_arena

end Linking

section Searching

/-- No scope has a name twice. -/
def Distinct (s : Scopes) : Prop := ∀ i scope, s.scope? i = some scope → (Entries.keys scope).Nodup

theorem distinct_initial : initial.Distinct := by
  intro i scope hscope
  obtain rfl : scope = [] := by
    rw [scope?_eq_reverse] at hscope
    simpa [initial] using List.mem_of_getElem? hscope
  exact List.nodup_nil

theorem Distinct.modify {f : Scope → Scope} (h : s.Distinct)
    (hf : ∀ scope : Scope, (Entries.keys scope).Nodup → (Entries.keys (f scope)).Nodup) :
    (s.modify i f).Distinct := by
  intro k scope hscope
  rw [scope?_modify] at hscope
  split at hscope
  · obtain ⟨scope, hold, rfl⟩ := Option.map_eq_some_iff.1 hscope
    exact hf scope (h k scope hold)
  · exact h k scope hscope

theorem Distinct.perform (h : s.Distinct) : (s.perform op).Distinct := by
  cases op with
  | push =>
    intro i scope hscope
    rw [Scopes.perform, scope?_push] at hscope
    split at hscope
    · obtain rfl := Option.some.inj hscope
      exact List.nodup_nil
    · exact h i scope hscope
  | pop =>
    intro i scope hscope
    rw [Scopes.perform, scope?_pop_eq] at hscope
    split at hscope
    · exact h i scope hscope
    · cases hscope
  | define i name b => exact h.modify fun _ => Entries.nodup_keys_insert
  | erase i name => exact h.modify fun _ hscope => hscope.sublist Entries.keys_erase_sublist

theorem distinct_history : (history ops).Distinct := by
  induction ops using List.reverseRecOn with
  | nil => exact distinct_initial
  | append_singleton ops op ih =>
    rw [history_append]
    exact ih.perform

theorem Distinct.of_mem_levels (h : s.Distinct) (hscope : scope ∈ s.levels i) :
    (Entries.keys scope).Nodup := by
  unfold levels at hscope
  split at hscope
  · obtain ⟨k, hk⟩ := List.mem_iff_getElem?.1 (List.mem_reverse.2 (List.mem_of_mem_drop hscope))
    exact h k scope (scope?_eq_reverse.trans hk)
  · cases hscope

/-- The text that a scope has for a variable. -/
def textOf? (name : Text) (scope : Scope) : Option Text :=
  (Entries.get? (variableName name) scope).bind Binding.text?

theorem addVariables_cons_of_ne {found : Entries Text Text} (hkey : key ≠ variableName name) :
    ∃ found', addVariables found ((key, b) :: scope) = addVariables found' scope ∧
      found'.get? name = found.get? name := by
  cases b with
  | function params body => exact ⟨found, addVariables_function, rfl⟩
  | text value =>
    by_cases hsigil : ∃ other, key = variableName other
    · obtain ⟨other, rfl⟩ := hsigil
      have hne : name ≠ other := fun heq => hkey (heq ▸ rfl)
      refine ⟨_, addVariables_text, ?_⟩
      split
      · rfl
      · rw [Entries.get?_insert, if_neg hne]
    · refine ⟨found, ?_, rfl⟩
      cases key with
      | nil => rfl
      | cons c other =>
        have hc : c ≠ sigil := fun heq => hsigil ⟨other, heq ▸ rfl⟩
        simp [addVariables, hc]

theorem get?_addVariables_of_nodup {found : Entries Text Text} (h : (Entries.keys scope).Nodup) :
    (addVariables found scope).get? name = (found.get? name).or (textOf? name scope) := by
  induction scope generalizing found with
  | nil => simp [addVariables, textOf?, Entries.get?]
  | cons p scope ih =>
    obtain ⟨hp, hscope⟩ := List.nodup_cons.1 h
    obtain ⟨key, b⟩ := p
    by_cases hkey : key = variableName name
    · subst hkey
      have hrest : textOf? name scope = none := by
        rw [textOf?, Entries.get?_eq_none_iff.2 hp]
        rfl
      have hhere : textOf? name ((variableName name, b) :: scope) = b.text? := by
        simp [textOf?, Entries.get?]
      rw [hhere]
      cases b with
      | function params body => rw [addVariables_function, ih hscope, hrest, Binding.text?]
      | text value =>
        rw [addVariables_text, ih hscope, hrest, Option.or_none]
        cases hfound : found.get? name with
        | none => simp [Entries.has, hfound, Entries.get?_insert, Binding.text?]
        | some other => simp [Entries.has, hfound]
    · have hskip : textOf? name ((key, b) :: scope) = textOf? name scope := by
        simp [textOf?, Entries.get?, hkey]
      obtain ⟨found', hadd, hget⟩ : ∃ found', addVariables found ((key, b) :: scope) =
          addVariables found' scope ∧ found'.get? name = found.get? name :=
        addVariables_cons_of_ne hkey
      rw [hadd, ih hscope, hget, hskip]

theorem get?_foldl_addVariables {scopes : List Scope} {found : Entries Text Text}
    (h : ∀ scope ∈ scopes, (Entries.keys scope).Nodup) :
    (scopes.foldl addVariables found).get? name =
      (found.get? name).or (scopes.findSome? (textOf? name)) := by
  induction scopes generalizing found with
  | nil => simp
  | cons scope scopes ih =>
    obtain ⟨hscope, hscopes⟩ := List.forall_mem_cons.1 h
    rw [List.foldl_cons, ih hscopes, get?_addVariables_of_nodup hscope, List.findSome?_cons]
    cases textOf? name scope <;> simp

theorem Distinct.get?_variableTexts (h : s.Distinct) :
    (s.variableTexts i).get? name = (s.levels i).findSome? (textOf? name) := by
  rw [variableTexts, get?_foldl_addVariables fun scope => h.of_mem_levels]
  simp [Entries.get?]

theorem forall_nodup_of_perm {orders scopes : List Scope}
    (hperm : List.Forall₂ List.Perm orders scopes)
    (h : ∀ scope ∈ scopes, (Entries.keys scope).Nodup) :
    ∀ scope ∈ orders, (Entries.keys scope).Nodup := by
  induction hperm with
  | nil => exact nofun
  | cons hsame _ ih =>
    obtain ⟨hscope, hscopes⟩ := List.forall_mem_cons.1 h
    exact List.forall_mem_cons.2 ⟨(hsame.map Prod.fst).nodup_iff.2 hscope, ih hscopes⟩

theorem findSome?_textOf?_perm {orders scopes : List Scope}
    (hperm : List.Forall₂ List.Perm orders scopes)
    (h : ∀ scope ∈ scopes, (Entries.keys scope).Nodup) :
    scopes.findSome? (textOf? name) = orders.findSome? (textOf? name) := by
  induction hperm with
  | nil => rfl
  | cons hsame _ ih =>
    obtain ⟨hscope, hscopes⟩ := List.forall_mem_cons.1 h
    rw [List.findSome?_cons, List.findSome?_cons, ih hscopes, textOf?, textOf?,
      Entries.get?_perm hscope hsame.symm]

theorem Distinct.get?_of_perm (h : s.Distinct) {orders : List Scope}
    (hperm : List.Forall₂ List.Perm orders (s.levels i)) :
    (orders.foldl addVariables []).get? name = (s.variableTexts i).get? name := by
  have hlevels : ∀ scope ∈ s.levels i, (Entries.keys scope).Nodup := fun scope => h.of_mem_levels
  rw [h.get?_variableTexts, get?_foldl_addVariables (forall_nodup_of_perm hperm hlevels),
    findSome?_textOf?_perm hperm hlevels]
  exact Option.none_or

theorem levels_of_le (hi : s.depth ≤ i) : s.levels i = [] := if_neg (Nat.not_lt.2 hi)

theorem findSome?_levels_iff {α : Type} {f : Scope → Option α} {y : α} :
    (s.levels i).findSome? f = some y ↔ i < s.depth ∧ ∃ k ≤ i, (s.scope? k).bind f = some y ∧
      ∀ m, k < m → m ≤ i → (s.scope? m).bind f = none := by
  by_cases hi : i < s.depth
  · rw [findSome?_levels_eq_some_iff hi, and_iff_right hi]
  · simp [levels_of_le (Nat.le_of_not_lt hi), hi]

theorem bind_textOf?_eq_some {t : Text} : (s.scope? k).bind (textOf? name) = some t ↔
    s.local? k (variableName name) = some (.text t) := by
  rw [local?_eq]
  unfold textOf?
  cases s.scope? k with
  | none => simp
  | some scope =>
    simp only [Option.bind_some]
    cases Entries.get? (variableName name) scope with
    | none => simp
    | some b => cases b <;> simp [Binding.text?]

end Searching

section Staying

/-- An operation leaves a binding in scope `i` alone, and the scope open. -/
def Operation.Spares (i : Nat) (name : Text) (s : Scopes) : Operation → Prop
  | .push => True
  | .pop => i < s.pop.depth
  | .define k key _ | .erase k key => k = i → key ≠ name

/-- Each of some operations does so. -/
def Keeps (i : Nat) (name : Text) : Scopes → List Operation → Prop
  | _, [] => True
  | s, op :: ops => op.Spares i name s ∧ Keeps i name (s.perform op) ops

theorem keeps_append : Keeps i name s (ops ++ [op]) ↔
    Keeps i name s ops ∧ op.Spares i name (ops.foldl perform s) := by
  induction ops generalizing s with
  | nil => simp [Keeps]
  | cons op' ops ih => simp only [List.cons_append, Keeps, ih, List.foldl_cons, and_assoc]

theorem Operation.Spares.local?_perform (h : op.Spares i name s) :
    (s.perform op).local? i name = s.local? i name := by
  cases op with
  | push =>
    rw [perform, local?_eq, scope?_push, local?_eq]
    split
    · next hi =>
      rw [scope?_eq_none_iff.2 (Nat.le_of_eq hi.symm)]
      rfl
    · rfl
  | pop =>
    have hopen : i < s.pop.depth := h
    rw [perform, local?_eq, scope?_pop_eq, if_pos hopen, local?_eq]
  | define k key b => exact local?_define_of_ne fun hi hname => h hi.symm hname.symm
  | erase k key => exact local?_erase_of_ne fun hi hname => h hi.symm hname.symm

theorem local?_perform_of_not_spares (h : ¬ op.Spares i name s) :
    (s.perform op).local? i name = some b ↔ op = .define i name b ∧ i < s.depth := by
  cases op with
  | push => exact absurd trivial h
  | pop =>
    have hclosed : ¬ i < s.pop.depth := h
    rw [perform, local?_eq, scope?_pop_eq, if_neg hclosed]
    simp
  | define k key b' =>
    obtain ⟨rfl, rfl⟩ : k = i ∧ key = name := by simpa [Operation.Spares] using h
    rw [perform, local?_eq, define, scope?_modify, if_pos rfl]
    cases hscope : s.scope? k with
    | none => simp [scope?_eq_none_iff.1 hscope]
    | some scope =>
      have hdepth : k < s.depth := by
        refine Nat.lt_of_not_le fun hle => ?_
        simp [scope?_eq_none_iff.2 hle] at hscope
      simp [Entries.get?_insert, hdepth]
  | erase k key =>
    obtain ⟨rfl, rfl⟩ : k = i ∧ key = name := by simpa [Operation.Spares] using h
    rw [perform, local?_eq, erase, scope?_modify, if_pos rfl]
    cases s.scope? k <;> simp [Entries.get?_erase]

theorem local?_perform : (s.perform op).local? i name = some b ↔
    op = .define i name b ∧ i < s.depth ∨ s.local? i name = some b ∧ op.Spares i name s := by
  by_cases h : op.Spares i name s
  · have hmakes : op ≠ .define i name b := by
      rintro rfl
      exact h rfl rfl
    simp [h.local?_perform, hmakes, h]
  · simp [local?_perform_of_not_spares h, h]

/-- A scope has the bindings made in it that nothing edited since, nor closed the scope. -/
theorem local?_history : (history ops).local? i name = some b ↔
    ∃ before after, ops = before ++ .define i name b :: after ∧ i < (history before).depth ∧
      Keeps i name (history (before ++ [.define i name b])) after := by
  induction ops using List.reverseRecOn with
  | nil =>
    have hnone : (history []).local? i name = none := by
      rw [local?_eq, scope?_eq_reverse]
      cases i <;> simp [history, initial, Entries.get?]
    simp [hnone]
  | append_singleton ops op ih =>
    rw [history_append, local?_perform, ih]
    constructor
    · rintro (⟨rfl, hi⟩ | ⟨⟨before, after, rfl, hi, hkeeps⟩, hspares⟩)
      · exact ⟨ops, [], rfl, hi, trivial⟩
      · refine ⟨before, after ++ [op], by simp, hi, keeps_append.2 ⟨hkeeps, ?_⟩⟩
        rwa [history, ← List.foldl_append, List.append_assoc]
    · rintro ⟨before, after, hops, hi, hkeeps⟩
      obtain rfl | ⟨after, op', rfl⟩ := List.eq_nil_or_concat' after
      · obtain ⟨rfl, hop⟩ := List.append_inj' hops rfl
        exact .inl ⟨(List.singleton_inj.1 hop), hi⟩
      · obtain ⟨hkept, hspares⟩ := keeps_append.1 hkeeps
        rw [← List.cons_append, ← List.append_assoc] at hops
        obtain ⟨rfl, hop⟩ := List.append_inj' hops rfl
        obtain rfl := List.singleton_inj.1 hop
        refine .inr ⟨⟨before, after, rfl, hi, hkept⟩, ?_⟩
        rwa [history, ← List.foldl_append, List.append_assoc] at hspares

end Staying

/-- After any operations, the links are the way through the scopes around, a name stands for what
the innermost scope that binds it says, and nothing bound in a scope that is closed is found
again. -/
theorem scopes_of_history (ops : List Operation) :
    let s := history ops
    let a := Arena.history ops
    1 ≤ s.depth ∧ a.cells.length = s.depth ∧
    (∀ i, a.parent? i = s.parent? i ∧
      s.parent? i = if 0 < i ∧ i < s.depth then some (i - 1) else none) ∧
    (∀ i way, a.Passes (some i) way ↔ way = s.levels i) ∧
    (∀ i name b, s.lookup? i name = some b ↔ i < s.depth ∧ ∃ k ≤ i,
      s.local? k name = some b ∧ ∀ m, k < m → m ≤ i → s.local? m name = none) ∧
    (∀ i name t, (s.variableTexts i).get? name = some t ↔ i < s.depth ∧ ∃ k ≤ i,
      s.local? k (variableName name) = some (.text t) ∧
        ∀ m, k < m → m ≤ i → ∀ t', s.local? m (variableName name) ≠ some (.text t')) ∧
    (∀ i orders, List.Forall₂ List.Perm orders (s.levels i) → ∀ name,
      (orders.foldl addVariables []).get? name = (s.variableTexts i).get? name) ∧
    ∀ i name b, s.local? i name = some b ↔
      ∃ before after, ops = before ++ .define i name b :: after ∧ i < (history before).depth ∧
        Keeps i name (history (before ++ [.define i name b])) after := by
  intro s a
  have harena : a = s.arena := arena_history
  have hdistinct : s.Distinct := distinct_history
  have hparent : ∀ i, s.parent? i = if 0 < i ∧ i < s.depth then some (i - 1) else none := by
    simp [parent?]
  refine ⟨Nat.succ_pos _, ?_, fun i => ⟨?_, hparent i⟩, ?_, ?_, ?_, ?_, ?_⟩
  · rw [harena, length_arena]
  · rw [harena, hparent, parent?_arena]
  · intro i way
    rw [harena, passes_arena_iff]
  · exact fun i name b => findSome?_levels_iff
  · intro i name t
    simp only [hdistinct.get?_variableTexts, findSome?_levels_iff, bind_textOf?_eq_some,
      Option.eq_none_iff_forall_ne_some, ne_eq]
  · exact fun i orders hperm name => hdistinct.get?_of_perm hperm
  · exact fun i name b => local?_history

/-- A scope of the same number does not see what was bound in the one before. -/
example : (history [.push, .define 1 ['x'] (.text ['y']), .pop, .push]).lookup? 1 ['x'] = none :=
  rfl

end Scopes

end Stencil
