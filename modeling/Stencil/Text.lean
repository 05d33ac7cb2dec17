/-! Template text as a list of characters, with the tests and replacements that the syntax needs. -/
namespace Stencil

/-- Text of a template, and every name, path or value cut out of one. -/
abbrev Text := List Char

namespace Text

/-- The text as a string, for messages. -/
def str (t : Text) : String := String.ofList t

/-- Whether `t` goes on with `mark`. The empty mark stands nowhere. -/
def startsAt (mark t : Text) : Bool := !mark.isEmpty && mark.isPrefixOf t

/-- Replaces the leftmost occurrences of a mark that do not overlap, `skip` characters still
belonging to the last one. -/
def replaceFrom (old new : Text) : Nat → Text → Text
  | _, [] => []
  | skip + 1, _ :: r => replaceFrom old new skip r
  | 0, c :: r =>
    if old.startsAt (c :: r) then new ++ replaceFrom old new (old.length - 1) r
    else c :: replaceFrom old new 0 r

/-- Replaces every leftmost occurrence of `old` in `t`; the empty mark occurs nowhere. -/
def replace (t old new : Text) : Text := replaceFrom old new 0 t

/-- Whether `mark` occurs in `t`. -/
def contains (mark : Text) : Text → Bool
  | [] => mark.isEmpty
  | c :: r => mark.isPrefixOf (c :: r) || contains mark r

/-- The parts of `t` between occurrences of `mark`; never empty. -/
def splitOn (mark : Char) : Text → List Text
  | [] => [[]]
  | c :: r =>
    if c = mark then [] :: splitOn mark r
    else match splitOn mark r with
      | [] => [[c]]
      | first :: others => (c :: first) :: others

/-- What stands before and after the first occurrence of `mark`, if there is one. -/
def cutAt? (mark : Char) : Text → Option (Text × Text)
  | [] => none
  | c :: r =>
    if c = mark then some ([], r)
    else (cutAt? mark r).map fun (before, after) => (c :: before, after)

/-- Drops `mark` at the front of `t`; where the mark is missing, nothing is dropped. -/
def dropFront (t mark : Text) : Text := if mark.isPrefixOf t then t.drop mark.length else t

/-- Drops `mark` at the back of `t`; where the mark is missing, nothing is dropped. -/
def dropBack (t mark : Text) : Text :=
  if mark.isSuffixOf t then t.take (t.length - mark.length) else t

/-- Joins `parts` in order with `mark` between two of them. -/
def join (mark : Text) (parts : List Text) : Text := mark.intercalate parts

/-- ASCII letters in lower case, all else unchanged. -/
def lower (t : Text) : Text := t.map Char.toLower

theorem startsAt_iff {mark t : Text} : mark.startsAt t = true ↔ mark ≠ [] ∧ mark <+: t := by
  simp [startsAt, List.isPrefixOf_iff_prefix]

theorem length_pos_of_startsAt {mark t : Text} (h : mark.startsAt t = true) : 0 < mark.length :=
  List.length_pos_iff.2 (startsAt_iff.1 h).1

theorem append_drop_of_startsAt {mark t : Text} (h : mark.startsAt t = true) :
    mark ++ t.drop mark.length = t := by
  obtain ⟨_, r, rfl⟩ := startsAt_iff.1 h
  simp

theorem eq_append_of_cutAt? {mark : Char} {t before after : Text}
    (h : cutAt? mark t = some (before, after)) : t = before ++ mark :: after := by
  induction t generalizing before with
  | nil => simp [cutAt?] at h
  | cons c r ih =>
    by_cases hc : c = mark
    · simp_all [cutAt?]
    · simp only [cutAt?, hc, if_false, Option.map_eq_some_iff, Prod.mk.injEq] at h
      obtain ⟨⟨b, a⟩, hr, rfl, rfl⟩ := h
      simp [ih hr]

theorem cutAt?_eq_none_iff {mark : Char} {t : Text} : cutAt? mark t = none ↔ mark ∉ t := by
  induction t with
  | nil => simp [cutAt?]
  | cons c r ih =>
    by_cases hc : c = mark
    · simp [cutAt?, hc]
    · simp [cutAt?, hc, ih, Ne.symm hc]

theorem cutAt?_append {mark : Char} {t : Text} (h : mark ∉ t) (r : Text) :
    cutAt? mark (t ++ mark :: r) = some (t, r) := by
  induction t with
  | nil => simp [cutAt?]
  | cons c t ih =>
    obtain ⟨hc, ht⟩ := not_or.1 (mt List.mem_cons.2 h)
    simp [cutAt?, Ne.symm hc, ih ht]

/-- What is cut off ends before the first occurrence of the mark. -/
theorem cutAt?_eq_some_iff {mark : Char} {t before after : Text} :
    cutAt? mark t = some (before, after) ↔ t = before ++ mark :: after ∧ mark ∉ before := by
  refine ⟨fun h => ⟨eq_append_of_cutAt? h, fun hmem => ?_⟩, fun ⟨ht, h⟩ => ht ▸ cutAt?_append h _⟩
  induction t generalizing before with
  | nil => cases h
  | cons c r ih =>
    unfold cutAt? at h
    split at h
    · obtain ⟨rfl, -⟩ := Prod.mk.inj (Option.some.inj h)
      cases hmem
    · next hc =>
      obtain ⟨⟨b, a⟩, hr, heq⟩ := Option.map_eq_some_iff.1 h
      obtain ⟨rfl, rfl⟩ := Prod.mk.inj heq
      obtain rfl | hmem := List.mem_cons.1 hmem
      · exact hc rfl
      · exact ih hr hmem

end Text
end Stencil
