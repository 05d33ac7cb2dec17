import Stencil.Proofs.MetaBlock

/-! The settings in force: what the blocks of a template assign, what is forced, and what an import
is given. Each is told by the value under one key. -/
namespace Stencil

namespace Entries

variable {κ α : Type} [DecidableEq κ]

/-- The value that comes last under `key`. -/
def last? (key : κ) : Entries κ α → Option α
  | [] => none
  | (k, v) :: r => (last? key r).or (if k = key then some v else none)

variable {key k : κ} {value : α} {e more : Entries κ α}

theorem last?_append : last? key (e ++ more) = (last? key more).or (last? key e) := by
  induction e with
  | nil => simp [last?]
  | cons p r ih => simp only [List.cons_append, last?, ih, Option.or_assoc]

theorem get?_insertAll : get? key (insertAll e more) = (last? key more).or (get? key e) := by
  induction more generalizing e with
  | nil => rfl
  | cons p r ih =>
    have hinsert : get? key (insert p.1 p.2 e) =
        (if p.1 = key then some p.2 else none).or (get? key e) := by
      rw [get?_insert]
      by_cases h : key = p.1 <;> simp [h, eq_comm]
    calc get? key (insertAll e (p :: r)) = get? key (insertAll (insert p.1 p.2 e) r) := rfl
      _ = (last? key r).or (get? key (insert p.1 p.2 e)) := ih
      _ = (last? key (p :: r)).or (get? key e) := by rw [hinsert, ← Option.or_assoc, last?]

theorem get?_eq_none_iff : get? key e = none ↔ key ∉ keys e := by
  induction e with
  | nil => simp [get?, keys]
  | cons p r ih =>
    by_cases h : p.1 = key
    · simp [get?, keys, h]
    · simp_all [get?, keys, eq_comm]

theorem mem_keys_insert : k ∈ keys (insert key value e) ↔ k = key ∨ k ∈ keys e := by
  have hmem : ∀ e : Entries κ α, k ∈ keys e ↔ get? k e ≠ none := by
    intro e
    rw [ne_eq, get?_eq_none_iff, not_not]
  rw [hmem, hmem, get?_insert]
  by_cases h : k = key <;> simp [h]

theorem mem_keys_insertAll : k ∈ keys (insertAll e more) ↔ k ∈ keys e ∨ k ∈ keys more := by
  induction more generalizing e with
  | nil => exact (or_iff_left List.not_mem_nil).symm
  | cons p r ih =>
    have hcons : k ∈ keys (p :: r) ↔ k = p.1 ∨ k ∈ keys r := List.mem_cons
    rw [show insertAll e (p :: r) = insertAll (insert p.1 p.2 e) r from rfl, ih, mem_keys_insert,
      hcons, or_left_comm, or_assoc]

theorem nodup_keys_insert (h : (keys e).Nodup) : (keys (insert key value e)).Nodup := by
  induction e with
  | nil => simp [insert, keys]
  | cons p r ih =>
    obtain ⟨hp, hr⟩ := List.nodup_cons.1 h
    unfold insert
    split
    · next hk =>
      subst hk
      exact h
    · next hk =>
      refine List.nodup_cons.2 ⟨fun hmem => ?_, ih hr⟩
      obtain h' | h' := mem_keys_insert.1 hmem
      · exact hk h'
      · exact hp h'

theorem nodup_keys_insertAll (h : (keys e).Nodup) : (keys (insertAll e more)).Nodup := by
  induction more generalizing e with
  | nil => exact h
  | cons p r ih => exact ih (nodup_keys_insert h)

theorem last?_eq_get? (h : (keys e).Nodup) : last? key e = get? key e := by
  induction e with
  | nil => rfl
  | cons p r ih =>
    obtain ⟨hp, hr⟩ := List.nodup_cons.1 h
    rw [last?, get?, ih hr]
    by_cases hk : p.1 = key
    · have hnone : get? key r = none := get?_eq_none_iff.2 (hk ▸ hp)
      simp [hk, hnone]
    · simp [hk]

theorem last?_eq_none_iff : last? key e = none ↔ key ∉ keys e := by
  induction e with
  | nil => simp [last?, keys]
  | cons p r ih =>
    have hcons : key ∈ keys (p :: r) ↔ key = p.1 ∨ key ∈ keys r := List.mem_cons
    rw [last?, Option.or_eq_none_iff, ih, hcons, not_or, and_comm]
    simp [eq_comm]

end Entries

namespace MetaBlock

/-- The assignment that an entry of a block makes, if it makes one. -/
def assignment? (entry : Text) : Option (Text × Text) :=
  match entry.cutAt? '=' with
  | none | some ([], _) => none
  | some assignment => some assignment

/-- What the blocks of a template assign, in order. -/
def assignments (source : Text) : Entries Text Text :=
  (blocksFrom .start (parts source)).flatMap fun block => (entries block.2).filterMap assignment?

end MetaBlock

namespace Config

/-- The configuration that a template is under: its blocks are applied, and then what is forced. -/
def forSource (source : Text) (c : Config) : Config :=
  restoreForced { c with values := c.values.insertAll (MetaBlock.assignments source) }

variable {c : Config} {source key target path : Text} {overrides : Entries Text Text}

theorem get?_values_forSource : (c.forSource source).values.get? key =
    (c.forced.last? key).or
      (((MetaBlock.assignments source).last? key).or (c.values.get? key)) := by
  unfold forSource restoreForced
  rw [Entries.get?_insertAll, Entries.get?_insertAll]

@[simp] theorem forced_forSource : (c.forSource source).forced = c.forced := rfl

theorem foldl_force (e : Entries Text Text) :
    e.foldl (fun d (key, value) => d.force key value) c =
      ⟨c.values.insertAll e, c.forced.insertAll e⟩ := by
  induction e generalizing c with
  | nil => rfl
  | cons p r ih => exact ih

/-- What is forced on an import, the last one counting. -/
theorem last?_forced_forImport : (c.forImport target path overrides).forced.last? key =
    if key = Setting.filePath then some path
    else if key = Setting.fileName then some target
    else (overrides.last? key).or (c.forced.last? key) := by
  have hnodup : (c.forImport target path overrides).forced.keys.Nodup := by
    unfold forImport
    rw [foldl_force]
    refine Entries.nodup_keys_insert (Entries.nodup_keys_insert ?_)
    exact Entries.nodup_keys_insertAll List.nodup_nil
  rw [Entries.last?_eq_get? hnodup]
  unfold forImport
  rw [foldl_force]
  simp only [force, initial, Entries.get?_insert, Entries.get?_insertAll, Entries.last?_append,
    Entries.get?, Option.or_none]

/-- An import has what is forced on it, and else what settings begin with. -/
theorem get?_values_forImport : (c.forImport target path overrides).values.get? key =
    ((c.forImport target path overrides).forced.last? key).or (Setting.defaults.get? key) := by
  rw [last?_forced_forImport]
  unfold forImport
  rw [foldl_force]
  simp only [force, initial, Entries.get?_insert, Entries.get?_insertAll, Entries.last?_append]
  split
  · rfl
  · split
    · rfl
    · rfl

end Config

open Stencil.Action

variable {c c' : Config} {j k : Journal}

namespace MetaBlock

theorem runs_applyEntry {l : Location} {entry : Text} (h : (applyEntry l c entry).Runs j c' k) :
    c' = { c with values := c.values.insertAll (assignment? entry).toList } := by
  unfold applyEntry at h
  unfold assignment?
  split at h
  · exact absurd h runs_fail
  · next heq =>
    obtain ⟨rfl, -⟩ := runs_pure.1 h
    rw [heq]
    rfl
  · next key value hkey heq =>
    have hset : c' = c.set key value := by
      dsimp only at h
      split at h
      · exact (runs_pure.1 h).1
      · obtain ⟨_, i, -, h⟩ := runs_bind.1 h
        exact (runs_pure.1 h).1
    rw [hset, heq]
    cases key with
    | nil => exact absurd rfl hkey
    | cons => rfl

theorem runs_apply {block : Position × Text} (h : (apply c block).Runs j c' k) :
    c' = { c with values := c.values.insertAll ((entries block.2).filterMap assignment?) } := by
  unfold apply at h
  generalize (⟨block.1, some c.fileName⟩ : Location) = l at h
  generalize entries block.2 = es at h ⊢
  induction es generalizing c j with
  | nil =>
    obtain ⟨rfl, -⟩ := runs_pure.1 h
    rfl
  | cons e es ih =>
    rw [List.foldlM_cons] at h
    obtain ⟨c₁, i, hfirst, h⟩ := runs_bind.1 h
    rw [ih h, runs_applyEntry hfirst]
    cases hassignment : assignment? e with
    | none => simp [hassignment, Entries.insertAll]
    | some p => simp [hassignment, Entries.insertAll]

theorem runs_foldlM_apply {blocks : List (Position × Text)}
    (h : (blocks.foldlM apply c).Runs j c' k) :
    c' = ⟨c.values.insertAll
      (blocks.flatMap fun block => (entries block.2).filterMap assignment?), c.forced⟩ := by
  induction blocks generalizing c j with
  | nil =>
    obtain ⟨rfl, -⟩ := runs_pure.1 h
    rfl
  | cons b blocks ih =>
    rw [List.foldlM_cons] at h
    obtain ⟨c₁, i, hfirst, h⟩ := runs_bind.1 h
    rw [ih h, runs_apply hfirst]
    simp [Entries.insertAll]

end MetaBlock

theorem preprocess_forSource {source rest : Text}
    (h : (preprocess source c).Runs j (rest, c') k) : c' = c.forSource source := by
  obtain ⟨c₁, i, hblocks, h⟩ := runs_bind.1 h
  have hrestore : c' = c₁.restoreForced := by
    dsimp only at h
    split at h
    · obtain ⟨_, i', -, h⟩ := runs_bind.1 h
      exact (Prod.mk.inj (runs_pure.1 h).1).2
    · exact (Prod.mk.inj (runs_pure.1 h).1).2
  rw [hrestore, MetaBlock.runs_foldlM_apply hblocks]
  rfl

end Stencil
