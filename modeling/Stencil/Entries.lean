/-! Values under keys, in the order in which the keys first came. -/
namespace Stencil

/-- Values under keys, in the order in which the keys first came. -/
abbrev Entries (κ α : Type) := List (κ × α)

namespace Entries

variable {κ α : Type} [DecidableEq κ]

/-- The value under `key`. -/
def get? (key : κ) : Entries κ α → Option α
  | [] => none
  | (k, v) :: r => if k = key then some v else get? key r

/-- Puts `value` under `key`: a key that is there keeps its place, a new one comes last. -/
def insert (key : κ) (value : α) : Entries κ α → Entries κ α
  | [] => [(key, value)]
  | (k, v) :: r => if k = key then (key, value) :: r else (k, v) :: insert key value r

/-- Takes `key` and its value away. -/
def erase (key : κ) : Entries κ α → Entries κ α
  | [] => []
  | (k, v) :: r => if k = key then erase key r else (k, v) :: erase key r

/-- Whether there is a value under `key`. -/
def has (key : κ) (e : Entries κ α) : Bool := (e.get? key).isSome

/-- The keys in order. -/
def keys (e : Entries κ α) : List κ := e.map Prod.fst

/-- Puts all of `more` in, the last value for a key counting. -/
def insertAll (e more : Entries κ α) : Entries κ α := more.foldl (fun e (k, v) => insert k v e) e

theorem get?_insert (key k : κ) (value : α) (e : Entries κ α) :
    get? k (insert key value e) = if k = key then some value else get? k e := by
  induction e with
  | nil => simp [insert, get?, eq_comm]
  | cons p r ih =>
    by_cases h : p.1 = key
    · by_cases hk : k = key <;> simp_all [insert, get?, eq_comm]
    · by_cases hk : p.1 = k <;> simp_all [insert, get?]

theorem get?_erase (key k : κ) (e : Entries κ α) :
    get? k (erase key e) = if k = key then none else get? k e := by
  induction e with
  | nil => simp [erase, get?]
  | cons p r ih =>
    by_cases h : p.1 = key
    · by_cases hk : k = key <;> simp_all [erase, get?, eq_comm]
    · by_cases hk : p.1 = k <;> simp_all [erase, get?]

/-- What is in after a value is put in: that value, and what was in before. -/
theorem mem_insert {key : κ} {value : α} {p : κ × α} {e : Entries κ α}
    (h : p ∈ insert key value e) : p = (key, value) ∨ p ∈ e := by
  induction e with
  | nil => simp_all [insert]
  | cons q e ih =>
    unfold insert at h
    split at h
    · exact (List.mem_cons.1 h).imp_right (List.mem_cons_of_mem q)
    · obtain rfl | h := List.mem_cons.1 h
      · exact .inr List.mem_cons_self
      · exact (ih h).imp_right (List.mem_cons_of_mem q)

theorem mem_of_mem_erase {key : κ} {p : κ × α} {e : Entries κ α} (h : p ∈ erase key e) :
    p ∈ e := by
  induction e with
  | nil => exact h
  | cons q e ih =>
    unfold erase at h
    split at h
    · exact List.mem_cons_of_mem q (ih h)
    · obtain rfl | h := List.mem_cons.1 h
      · exact List.mem_cons_self
      · exact List.mem_cons_of_mem q (ih h)

theorem mem_of_get? {key : κ} {value : α} {e : Entries κ α} (h : get? key e = some value) :
    (key, value) ∈ e := by
  induction e with
  | nil => cases h
  | cons q e ih =>
    obtain ⟨k, v⟩ := q
    by_cases hk : k = key
    · simp_all [get?]
    · exact List.mem_cons_of_mem _ (ih (by simpa [get?, hk] using h))

theorem mem_insertAll {p : κ × α} {e more : Entries κ α} (h : p ∈ insertAll e more) :
    p ∈ e ∨ p ∈ more := by
  induction more generalizing e with
  | nil => exact .inl h
  | cons q more ih =>
    obtain h | h := ih h
    · obtain rfl | h := mem_insert h
      · exact .inr List.mem_cons_self
      · exact .inl h
    · exact .inr (List.mem_cons_of_mem q h)

end Entries
end Stencil
