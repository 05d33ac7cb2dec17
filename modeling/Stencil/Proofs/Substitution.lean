import Mathlib.Data.List.Basic
import Mathlib.Data.List.TakeWhile
import Stencil.Reference

/-! Substitution is simultaneous. The source of an expression is divided into slices, some of which
are references, before any value is known; the values only fill the slices. -/
namespace Stencil

open Stencil.Reference

/-- A slice of the source of an expression. -/
inductive Slice where
  | copied (text : Text)
  /-- A name, with or without the mark of a variable. -/
  | reference (sigiled : Bool) (name : Text)
  deriving DecidableEq, Repr

namespace Slice

/-- The text of a slice in the source. -/
def source : Slice → Text
  | copied text => text
  | reference true name => sigil :: name
  | reference false name => name

/-- The name that a slice refers to. -/
def name? : Slice → Option Text
  | copied _ => none
  | reference _ name => some name

/-- What stands in place of a slice: the text of a bound name, or the slice. -/
def fill (value? : Text → Option Text) (s : Slice) : Text :=
  (s.name?.bind value?).getD s.source

end Slice

/-- The slices of a source from a place on; `inWord` says whether a name ends there. -/
def slicesFrom (quote : Option Char) (inWord : Bool) (t : Text) : List Slice :=
  match t with
  | [] => []
  | c :: r =>
    if protects quote c r then
      .copied (c :: r.take 1) :: slicesFrom quote (r.head?.any isNameChar) (r.drop 1)
    else
      let open? := quoteAfter quote c
      if begins open? c r && !inWord then
        .reference (c = sigil) (nameAt c r) :: slicesFrom open? true (r.dropWhile isNameChar)
      else .copied [c] :: slicesFrom open? (isNameChar c) r
termination_by t.length
decreasing_by
  · simp only [List.length_cons, List.length_drop]; omega
  · have := (List.dropWhile_sublist isNameChar (l := r)).length_le
    simp only [List.length_cons]; omega
  · simp

/-- The slices of a source. -/
def slices (source : Text) : List Slice := slicesFrom none false source

/-- The names that a source refers to. -/
def references (source : Text) : List Text := (slices source).filterMap Slice.name?

section Slices

variable {value? value₁ value₂ : Text → Option Text} {quote : Option Char} {inWord : Bool}
  {c : Char} {r t source : Text}

@[simp] theorem source_referenceAt :
    (Slice.reference (c = sigil) (nameAt c r)).source = c :: r.takeWhile isNameChar := by
  by_cases hc : c = sigil
  · simp [nameAt, Slice.source, hc]
  · simp [nameAt, Slice.source, hc]

@[simp] theorem fill_copied : (Slice.copied t).fill value? = t := rfl

@[simp] theorem fill_none (s : Slice) : s.fill (fun _ => none) = s.source := by
  cases s <;> rfl

theorem flatMap_source_slicesFrom : (slicesFrom quote inWord t).flatMap Slice.source = t := by
  fun_induction slicesFrom quote inWord t with
  | case1 => rfl
  | case2 quote inWord c r _ ih =>
    rw [List.flatMap_cons, ih, Slice.source, List.cons_append, List.take_append_drop]
  | case3 quote inWord c r _ _ _ ih =>
    rw [List.flatMap_cons, ih, source_referenceAt, List.cons_append,
      List.takeWhile_append_dropWhile]
  | case4 quote inWord c r _ _ _ ih => simp [ih, Slice.source]

/-- The values have no say in where a source is cut. -/
theorem substituteFrom_eq (value? : Text → Option Text) (quote : Option Char) (inWord : Bool)
    (t : Text) : substituteFrom value? quote inWord t =
      (slicesFrom quote inWord t).flatMap (Slice.fill value?) := by
  fun_induction slicesFrom quote inWord t with
  | case1 => simp [substituteFrom]
  | case2 quote inWord c r hprotects ih =>
    rw [substituteFrom, if_pos hprotects, ih]
    rfl
  | case3 quote inWord c r hprotects open? hbegins ih =>
    rw [substituteFrom, if_neg hprotects]
    dsimp only
    rw [if_pos hbegins, ih, List.flatMap_cons, Slice.fill, source_referenceAt]
    rfl
  | case4 quote inWord c r hprotects open? hbegins ih =>
    rw [substituteFrom, if_neg hprotects]
    dsimp only
    rw [if_neg hbegins, ih]
    rfl

/-- Only the values of the names that are referred to matter. -/
theorem flatMap_fill_congr {l : List Slice}
    (h : ∀ name ∈ l.filterMap Slice.name?, value₁ name = value₂ name) :
    l.flatMap (Slice.fill value₁) = l.flatMap (Slice.fill value₂) := by
  refine List.flatMap_congr fun s hs => ?_
  cases s with
  | copied text => rfl
  | reference sigiled name =>
    have hname : value₁ name = value₂ name := h name (List.mem_filterMap.2 ⟨_, hs, rfl⟩)
    simp only [Slice.fill, Slice.name?, Option.bind_some, hname]

end Slices

namespace Reference

/-- Reading a text leads from one open quote, or none, to another; in quotes, a backslash protects a
character. -/
inductive Reads : Option Char → Text → Option Char → Prop where
  | nil (quote : Option Char) : Reads quote [] quote
  | outside {quote : Option Char} {c : Char} {t : Text} (hc : isQuote c = false)
      (rest : Reads none t quote) : Reads none (c :: t) quote
  | opens {quote : Option Char} {c : Char} {t : Text} (hc : isQuote c = true)
      (rest : Reads (some c) t quote) : Reads none (c :: t) quote
  | inside {quote : Option Char} {q c : Char} {t : Text} (hc : c ≠ q) (hescape : c ≠ '\\')
      (rest : Reads (some q) t quote) : Reads (some q) (c :: t) quote
  | escaped {quote : Option Char} {q c : Char} {t : Text} (rest : Reads (some q) t quote) :
      Reads (some q) ('\\' :: c :: t) quote
  | closes {quote : Option Char} {q : Char} {t : Text} (rest : Reads none t quote) :
      Reads (some q) (q :: t) quote

/-- Whether the character before the end of a text, or before all of it, belongs to names. -/
def endsInWord (inWord : Bool) : Text → Bool
  | [] => inWord
  | c :: t => endsInWord (isNameChar c) t

section Characters

variable {c : Char} {quote : Option Char}

theorem isNameChar_of_isNameStart (h : isNameStart c = true) : isNameChar c = true := by
  simp only [isNameStart, isNameChar, Char.isAlphanum, Bool.or_eq_true] at h ⊢
  exact h.imp_left .inl

theorem isQuote_eq_false (h : isNameChar c = true) : isQuote c = false := by
  by_contra hquote
  obtain rfl | rfl : c = '"' ∨ c = '\'' := by
    simpa [isQuote, or_iff_not_imp_left] using hquote
  · exact absurd h (by decide)
  · exact absurd h (by decide)

theorem ne_escape_of_isNameChar (h : isNameChar c = true) : c ≠ '\\' := by
  rintro rfl
  exact absurd h (by decide)

theorem quoteAfter_of_isQuote_eq_false (hquote : quote.all isQuote = true)
    (hc : isQuote c = false) : quoteAfter quote c = quote := by
  cases quote with
  | none => simp [quoteAfter, hc]
  | some q =>
    have hne : c ≠ q := by
      rintro rfl
      simp [hc] at hquote
    simp [quoteAfter, hne]

theorem all_quoteAfter (hquote : quote.all isQuote = true) :
    (quoteAfter quote c).all isQuote = true := by
  cases quote with
  | none => by_cases hc : isQuote c = true <;> simp [quoteAfter, hc]
  | some q => by_cases hc : c = q <;> simp_all [quoteAfter]

end Characters

section Reading

variable {c : Char} {quote quote' quote'' : Option Char} {t u : Text}

theorem Reads.append (h : Reads quote t quote') (h' : Reads quote' u quote'') :
    Reads quote (t ++ u) quote'' := by
  induction h with
  | nil => exact h'
  | outside hc _ ih => exact .outside hc (ih h')
  | opens hc _ ih => exact .opens hc (ih h')
  | inside hc hescape _ ih => exact .inside hc hescape (ih h')
  | escaped _ ih => exact .escaped (ih h')
  | closes _ ih => exact .closes (ih h')

theorem Reads.cons (hescape : quote.isSome = true → c ≠ '\\')
    (h : Reads (quoteAfter quote c) t quote') : Reads quote (c :: t) quote' := by
  cases quote with
  | none =>
    by_cases hc : isQuote c = true
    · exact .opens hc (by simpa [quoteAfter, hc] using h)
    · exact .outside (by simpa using hc) (by simpa [quoteAfter, hc] using h)
  | some q =>
    by_cases hc : c = q
    · subst hc
      exact .closes (by simpa [quoteAfter] using h)
    · exact .inside hc (hescape rfl) (by simpa [quoteAfter, hc] using h)

theorem reads_of_all (hquote : quote.all isQuote = true) (h : t.all isNameChar = true) :
    Reads quote t quote := by
  induction t with
  | nil => exact .nil quote
  | cons c t ih =>
    obtain ⟨hc, ht⟩ := Bool.and_eq_true_iff.1 h
    refine .cons (fun _ => ne_escape_of_isNameChar hc) ?_
    rw [quoteAfter_of_isQuote_eq_false hquote (isQuote_eq_false hc)]
    exact ih ht

theorem endsInWord_append (inWord : Bool) (t u : Text) :
    endsInWord inWord (t ++ u) = endsInWord (endsInWord inWord t) u := by
  induction t generalizing inWord with
  | nil => rfl
  | cons c t ih => exact ih _

theorem endsInWord_of_all {inWord : Bool} (h : t.all isNameChar = true)
    (hne : inWord = true ∨ t ≠ []) : endsInWord inWord t = true := by
  induction t generalizing inWord with
  | nil => exact hne.resolve_right (not_not.2 rfl)
  | cons c t ih =>
    obtain ⟨hc, ht⟩ := Bool.and_eq_true_iff.1 h
    exact ih ht (.inl hc)

theorem word_of_begins (h : begins quote c t = true) :
    isNameChar c = true ∨ t.takeWhile isNameChar ≠ [] := by
  unfold begins at h
  split at h
  · cases t with
    | nil => cases h
    | cons d t => exact .inr (by simp [isNameChar_of_isNameStart h])
  · exact .inl (isNameChar_of_isNameStart (Bool.and_eq_true_iff.1 h).1)

theorem ne_escape_of_begins (h : begins quote c t = true) : c ≠ '\\' := by
  rintro rfl
  exact absurd (show (isNameStart '\\' && quote.isNone) = true from h) (by simp [isNameStart])

end Reading

end Reference

section Cutting

variable {quote : Option Char} {inWord : Bool} {c d : Char} {t : Text}

theorem slicesFrom_protected (hquote : quote.isSome = true) :
    slicesFrom quote inWord ('\\' :: d :: t) =
      .copied ['\\', d] :: slicesFrom quote (isNameChar d) t := by
  have hprotects : protects quote '\\' (d :: t) = true := by simp [protects, hquote]
  rw [slicesFrom, if_pos hprotects]
  rfl

theorem slicesFrom_reference (hbegins : begins (quoteAfter quote c) c t = true) :
    slicesFrom quote false (c :: t) = .reference (c = sigil) (nameAt c t) ::
      slicesFrom (quoteAfter quote c) true (t.dropWhile isNameChar) := by
  have hprotects : ¬ protects quote c t = true := by
    have hne := ne_escape_of_begins hbegins
    simp [protects, hne]
  rw [slicesFrom, if_neg hprotects]
  simp [hbegins]

theorem slicesFrom_copied (hprotects : protects quote c t = false)
    (hbegins : begins (quoteAfter quote c) c t = false ∨ inWord = true) :
    slicesFrom quote inWord (c :: t) =
      .copied [c] :: slicesFrom (quoteAfter quote c) (isNameChar c) t := by
  rw [slicesFrom, if_neg (Bool.eq_false_iff.1 hprotects)]
  obtain h | h := hbegins
  · simp [h]
  · simp [h]

/-- The first slice is a protected character, a reference outside all words, or any character. -/
theorem slicesFrom_cases {s : Slice} {more : List Slice}
    (h : slicesFrom quote inWord t = s :: more) :
    (∃ d u, quote.isSome = true ∧ t = '\\' :: d :: u ∧ s = .copied ['\\', d] ∧
      more = slicesFrom quote (isNameChar d) u) ∨
    (∃ c u, t = c :: u ∧ begins (quoteAfter quote c) c u = true ∧ inWord = false ∧
      s = .reference (c = sigil) (nameAt c u) ∧
      more = slicesFrom (quoteAfter quote c) true (u.dropWhile isNameChar)) ∨
    ∃ c u, t = c :: u ∧ protects quote c u = false ∧ s = .copied [c] ∧
      more = slicesFrom (quoteAfter quote c) (isNameChar c) u := by
  cases t with
  | nil => simp [slicesFrom] at h
  | cons c t =>
    cases hprotects : protects quote c t with
    | true =>
      obtain ⟨⟨hopen, rfl⟩, ht⟩ : (quote.isSome = true ∧ c = '\\') ∧ t ≠ [] := by
        simpa [protects] using hprotects
      obtain ⟨d, u, rfl⟩ := List.exists_cons_of_ne_nil ht
      rw [slicesFrom_protected hopen] at h
      obtain ⟨rfl, rfl⟩ := List.cons.inj h
      exact .inl ⟨d, u, hopen, rfl, rfl, rfl⟩
    | false =>
      by_cases hname : begins (quoteAfter quote c) c t = true ∧ inWord = false
      · obtain ⟨hname, rfl⟩ := hname
        rw [slicesFrom_reference hname] at h
        obtain ⟨rfl, rfl⟩ := List.cons.inj h
        exact .inr (.inl ⟨c, t, rfl, hname, rfl, rfl, rfl⟩)
      · rw [slicesFrom_copied hprotects
          (by simpa [Classical.or_iff_not_imp_left] using hname)] at h
        obtain ⟨rfl, rfl⟩ := List.cons.inj h
        exact .inr (.inr ⟨c, t, rfl, hprotects, rfl, rfl⟩)

theorem step_of_slicesFrom {s : Slice} {more : List Slice} (hquote : quote.all isQuote = true)
    (h : slicesFrom quote inWord t = s :: more) (hmore : more ≠ []) :
    ∃ quote', quote'.all isQuote = true ∧ Reads quote s.source quote' ∧
      more = slicesFrom quote' (endsInWord inWord s.source) (more.flatMap Slice.source) := by
  obtain ⟨d, u, hopen, -, rfl, rfl⟩ | ⟨c, u, -, hname, rfl, rfl, rfl⟩ |
    ⟨c, u, -, hprotects, rfl, rfl⟩ := slicesFrom_cases h
  · obtain ⟨q, rfl⟩ := Option.isSome_iff_exists.1 hopen
    rw [flatMap_source_slicesFrom]
    exact ⟨_, hquote, .escaped (.nil _), rfl⟩
  · rw [source_referenceAt, flatMap_source_slicesFrom]
    refine ⟨quoteAfter quote c, all_quoteAfter hquote, ?_, ?_⟩
    · exact .cons (fun _ => ne_escape_of_begins hname)
        (reads_of_all (all_quoteAfter hquote) (by simp))
    · rw [endsInWord, endsInWord_of_all (by simp) (word_of_begins hname)]
  · have hu : u ≠ [] := by
      rintro rfl
      exact hmore (by simp [slicesFrom])
    have hescape : quote.isSome = true → c ≠ '\\' := by
      rintro hopen rfl
      simp [protects, hopen, hu] at hprotects
    rw [flatMap_source_slicesFrom]
    exact ⟨quoteAfter quote c, all_quoteAfter hquote, .cons hescape (.nil _), rfl⟩

/-- Where slices are told apart, the text behind is cut as it is read there. -/
theorem reads_of_slicesFrom {before after : List Slice} (hquote : quote.all isQuote = true)
    (h : slicesFrom quote inWord t = before ++ after) (hafter : after ≠ []) :
    ∃ quote', quote'.all isQuote = true ∧ Reads quote (before.flatMap Slice.source) quote' ∧
      after = slicesFrom quote' (endsInWord inWord (before.flatMap Slice.source))
        (after.flatMap Slice.source) := by
  induction before generalizing quote inWord t with
  | nil =>
    rw [List.nil_append] at h
    subst h
    exact ⟨quote, hquote, .nil quote, by simp [flatMap_source_slicesFrom, endsInWord]⟩
  | cons s before ih =>
    have hmore : before ++ after ≠ [] := by simp [hafter]
    obtain ⟨quote₁, hquote₁, hs, hrest⟩ := step_of_slicesFrom hquote h hmore
    obtain ⟨quote', hquote', hreads, hcut⟩ := ih hquote₁ hrest.symm
    rw [List.flatMap_cons, endsInWord_append]
    exact ⟨quote', hquote', hs.append hreads, hcut⟩

end Cutting

/-- The source alone is cut into slices, which make it up; each reference to a bound name gives its
text, all else stays, and what is put in is not read again. -/
theorem substitute_slices (source : Text) :
    (slices source).flatMap Slice.source = source ∧
    (∀ value?, substitute value? source = (slices source).flatMap (Slice.fill value?)) ∧
    (∀ value₁ value₂, (∀ name ∈ references source, value₁ name = value₂ name) →
      substitute value₁ source = substitute value₂ source) ∧
    substitute (fun _ => none) source = source ∧
    ∀ before after, slices source = before ++ after → after ≠ [] →
      ∃ quote, Reads none (before.flatMap Slice.source) quote ∧ ∀ value?,
        substitute value? source = before.flatMap (Slice.fill value?) ++
          substituteFrom value? quote (endsInWord false (before.flatMap Slice.source))
            (after.flatMap Slice.source) := by
  have heq : ∀ value?, substitute value? source =
      (slices source).flatMap (Slice.fill value?) := fun value? => substituteFrom_eq value? _ _ _
  refine ⟨flatMap_source_slicesFrom, heq, ?_, ?_, ?_⟩
  · intro value₁ value₂ h
    rw [heq, heq, flatMap_fill_congr h]
  · rw [heq, show Slice.fill (fun _ => none) = Slice.source from funext fill_none]
    exact flatMap_source_slicesFrom
  · intro before after h hafter
    obtain ⟨quote, -, hreads, hcut⟩ := reads_of_slicesFrom (by rfl) h hafter
    refine ⟨quote, hreads, fun value? => ?_⟩
    rw [heq, h, substituteFrom_eq, ← hcut, List.flatMap_append]

/-- Names in a literal without the mark of variables are no references. -/
theorem substitute_slices_agreeing : ∃ value₁ value₂ : Text → Option Text,
    value₁ "is".toList ≠ value₂ "is".toList ∧
    (∀ name ∈ references "'x is $x'".toList, value₁ name = value₂ name) ∧
    substitute value₁ "'x is $x'".toList = substitute value₂ "'x is $x'".toList := by
  let value (is name : Text) : Option Text :=
    if name = ['x'] then some ['1'] else if name = "is".toList then some is else none
  have hreferences : references "'x is $x'".toList = [['x']] := by decide +kernel
  have hagree : ∀ name ∈ references "'x is $x'".toList, value ['2'] name = value ['3'] name := by
    rw [hreferences]
    decide
  exact ⟨value ['2'], value ['3'], by decide, hagree,
    (substitute_slices "'x is $x'".toList).2.2.1 _ _ hagree⟩

end Stencil
