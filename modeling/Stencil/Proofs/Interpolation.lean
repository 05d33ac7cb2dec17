import Stencil.Proofs.Substitution

/-! Variables in quoted literals. What comes before a place is cut there as it is alone, and in
quotes a reference is the mark of variables with a whole name behind it, where no word ends. -/
namespace Stencil

open Stencil.Reference

namespace Reference

/-- A name that can be referred to. -/
structure IsName (name : Text) : Prop where
  start : name.head?.any isNameStart = true
  chars : name.all isNameChar = true

section Reading

variable {c : Char} {quote quote' quote'' : Option Char} {t u r : Text}

theorem Reads.all (h : Reads quote t quote') (hquote : quote.all isQuote = true) :
    quote'.all isQuote = true := by
  induction h with
  | nil => exact hquote
  | outside _ _ ih => exact ih rfl
  | opens hc _ ih => exact ih hc
  | inside _ _ _ ih => exact ih hquote
  | escaped _ ih => exact ih hquote
  | closes _ ih => exact ih rfl

theorem Reads.of_cons (hquote : quote.all isQuote = true) (h : Reads quote (c :: t) quote') :
    (quote.isSome = true → c ≠ '\\') ∧ Reads (quoteAfter quote c) t quote' ∨
      quote.isSome = true ∧ c = '\\' ∧ ∃ d u, t = d :: u ∧ Reads quote u quote' := by
  cases h with
  | outside hc rest => exact .inl ⟨nofun, by simpa [quoteAfter, hc] using rest⟩
  | opens hc rest => exact .inl ⟨nofun, by simpa [quoteAfter, hc] using rest⟩
  | inside hc hescape rest =>
    exact .inl ⟨fun _ => hescape, by simpa [quoteAfter, hc] using rest⟩
  | escaped rest => exact .inr ⟨rfl, rfl, _, _, rfl, rest⟩
  | closes rest =>
    refine .inl ⟨?_, by simpa [quoteAfter] using rest⟩
    rintro - rfl
    exact absurd hquote (by decide)

theorem Reads.unique (hquote : quote.all isQuote = true) (h : Reads quote t quote')
    (h' : Reads quote t quote'') : quote' = quote'' := by
  induction h with
  | nil =>
    cases h'
    rfl
  | outside hc _ ih =>
    obtain ⟨-, hrest⟩ | ⟨hopen, -⟩ := h'.of_cons hquote
    · exact ih rfl (by simpa [quoteAfter, hc] using hrest)
    · cases hopen
  | opens hc _ ih =>
    obtain ⟨-, hrest⟩ | ⟨hopen, -⟩ := h'.of_cons hquote
    · exact ih hc (by simpa [quoteAfter, hc] using hrest)
    · cases hopen
  | inside hc hescape _ ih =>
    obtain ⟨-, hrest⟩ | ⟨-, heq, -⟩ := h'.of_cons hquote
    · exact ih hquote (by simpa [quoteAfter, hc] using hrest)
    · exact absurd heq hescape
  | escaped _ ih =>
    obtain ⟨hescape, -⟩ | ⟨-, -, d, u, heq, hrest⟩ := h'.of_cons hquote
    · exact absurd rfl (hescape rfl)
    · obtain ⟨rfl, rfl⟩ := List.cons.inj heq
      exact ih hquote hrest
  | closes _ ih =>
    obtain ⟨-, hrest⟩ | ⟨-, heq, -⟩ := h'.of_cons hquote
    · exact ih rfl (by simpa [quoteAfter] using hrest)
    · subst heq
      exact absurd hquote (by decide)

theorem Reads.dropWhile (hquote : quote.all isQuote = true) (h : Reads quote t quote') :
    Reads quote (t.dropWhile isNameChar) quote' := by
  induction t with
  | nil => exact h
  | cons c t ih =>
    by_cases hc : isNameChar c = true
    · rw [List.dropWhile_cons_of_pos hc]
      obtain ⟨-, hrest⟩ | ⟨-, rfl, -⟩ := h.of_cons hquote
      · rw [quoteAfter_of_isQuote_eq_false hquote (isQuote_eq_false hc)] at hrest
        exact ih hrest
      · exact absurd rfl (ne_escape_of_isNameChar hc)
    · rwa [List.dropWhile_cons_of_neg hc]

theorem takeWhile_append_of_head? (hr : r.head?.any isNameChar = false) :
    (t ++ r).takeWhile isNameChar = t.takeWhile isNameChar := by
  induction t with
  | nil => cases r <;> simp_all
  | cons c t ih => by_cases hc : isNameChar c = true <;> simp [hc, ih]

theorem dropWhile_append_of_head? (hr : r.head?.any isNameChar = false) :
    (t ++ r).dropWhile isNameChar = t.dropWhile isNameChar ++ r := by
  induction t with
  | nil => cases r <;> simp_all
  | cons c t ih => by_cases hc : isNameChar c = true <;> simp [hc, ih]

theorem begins_append (hr : r.head?.any isNameChar = false) :
    begins quote c (t ++ r) = begins quote c t := by
  cases t with
  | cons d t => rfl
  | nil =>
    have hstart : r.head?.any isNameStart = false := by
      cases r with
      | nil => rfl
      | cons d r => exact Bool.eq_false_iff.2 fun h => by simp_all [isNameChar_of_isNameStart h]
    simp [begins, hstart]

theorem isName_nameAt (h : begins quote c t = true) : IsName (nameAt c t) := by
  unfold begins at h
  unfold nameAt
  split at h
  · next hc =>
    rw [if_pos hc]
    cases t with
    | nil => cases h
    | cons d t => exact ⟨by simpa [isNameChar_of_isNameStart h] using h, by simp⟩
  · next hc =>
    rw [if_neg hc]
    have hstart := (Bool.and_eq_true_iff.1 h).1
    exact ⟨hstart, by simp [isNameChar_of_isNameStart hstart]⟩

theorem endsInWord_dropWhile (h : begins quote c t = true) :
    endsInWord true (t.dropWhile isNameChar) = endsInWord (isNameChar c) t := by
  have hname : endsInWord (isNameChar c) (t.takeWhile isNameChar) = true :=
    endsInWord_of_all (by simp) (word_of_begins h)
  conv_rhs => rw [← t.takeWhile_append_dropWhile (p := isNameChar), endsInWord_append, hname]

end Reading

end Reference

section Cutting

variable {quote quote' : Option Char} {inWord : Bool} {c d : Char} {t u r : Text}

/-- What comes before a place that is not inside a name is cut as if it were all. -/
theorem slicesFrom_append (hquote : quote.all isQuote = true) (h : Reads quote u quote')
    (hr : r.head?.any isNameChar = false) : slicesFrom quote inWord (u ++ r) =
      slicesFrom quote inWord u ++ slicesFrom quote' (endsInWord inWord u) r := by
  fun_induction slicesFrom quote inWord u with
  | case1 quote inWord =>
    cases h
    simp [endsInWord]
  | case2 quote inWord c t hprotects ih =>
    obtain ⟨⟨hopen, rfl⟩, -⟩ : (quote.isSome = true ∧ c = '\\') ∧ t ≠ [] := by
      simpa [protects] using hprotects
    obtain ⟨hescape, -⟩ | ⟨-, -, d, u, rfl, hrest⟩ := h.of_cons hquote
    · exact absurd rfl (hescape hopen)
    · rw [List.cons_append, List.cons_append, slicesFrom_protected hopen]
      exact congrArg _ (ih hquote hrest)
  | case3 quote inWord c t hprotects open? hbegins ih =>
    obtain ⟨hname, rfl⟩ : begins open? c t = true ∧ inWord = false := by simpa using hbegins
    obtain ⟨-, hrest⟩ | ⟨hopen, rfl, d, u, rfl, -⟩ := h.of_cons hquote
    · rw [List.cons_append, slicesFrom_reference ((begins_append hr).trans hname),
        dropWhile_append_of_head? hr, ih (all_quoteAfter hquote)
        (hrest.dropWhile (all_quoteAfter hquote)), endsInWord_dropWhile hname]
      simp only [nameAt, takeWhile_append_of_head? hr]
      rfl
    · exact absurd (by simp [protects, hopen]) hprotects
  | case4 quote inWord c t hprotects open? hbegins ih =>
    obtain ⟨hescape, hrest⟩ | ⟨hopen, rfl, d, u, rfl, -⟩ := h.of_cons hquote
    · have hbegins : begins open? c (t ++ r) = false ∨ inWord = true := by
        rw [begins_append hr]
        simpa [Classical.or_iff_not_imp_left] using hbegins
      have hprotects' : protects quote c (t ++ r) = false := by simp_all [protects]
      rw [List.cons_append, slicesFrom_copied hprotects' hbegins, ih (all_quoteAfter hquote) hrest]
      rfl
    · exact absurd (by simp [protects, hopen]) hprotects

/-- A reference is a whole name outside all words, with the mark of variables in quotes. -/
theorem reference_of_slicesFrom {sigiled : Bool} {name : Text} {more : List Slice}
    (hquote : quote.all isQuote = true)
    (h : slicesFrom quote inWord t = .reference sigiled name :: more) :
    inWord = false ∧ IsName name ∧ (quote.isSome = true → sigiled = true) ∧
      ∃ rest, t = (Slice.reference sigiled name).source ++ rest ∧
        rest.head?.any isNameChar = false := by
  obtain ⟨d, u, -, -, hs, -⟩ | ⟨c, u, rfl, hname, rfl, hs, -⟩ | ⟨c, u, -, -, hs, -⟩ :=
    slicesFrom_cases h
  · cases hs
  · obtain ⟨rfl, rfl⟩ := Slice.reference.inj hs
    refine ⟨rfl, isName_nameAt hname, ?_, u.dropWhile isNameChar, ?_, ?_⟩
    · intro hopen
      by_contra hsigil
      have hc : ¬ c = sigil := by simpa using hsigil
      obtain ⟨hstart, hnone⟩ : isNameStart c = true ∧ (quoteAfter quote c).isNone = true := by
        simpa [begins, hc] using hname
      rw [quoteAfter_of_isQuote_eq_false hquote
        (isQuote_eq_false (isNameChar_of_isNameStart hstart))] at hnone
      cases quote with
      | none => cases hopen
      | some q => cases hnone
    · rw [source_referenceAt, List.cons_append, List.takeWhile_append_dropWhile]
    · have hhead := List.head?_dropWhile_not isNameChar u
      cases hdrop : (u.dropWhile isNameChar).head? with
      | none => rfl
      | some d => simpa [hdrop] using hhead
  · cases hs

theorem slicesFrom_sigil {name rest : Text} (hquote : quote.all isQuote = true)
    (hname : IsName name) (hrest : rest.head?.any isNameChar = false) :
    slicesFrom quote false (sigil :: name ++ rest) =
      .reference true name :: slicesFrom quote true rest := by
  obtain ⟨d, u, rfl⟩ : ∃ d u, name = d :: u := List.exists_cons_of_ne_nil (by
    rintro rfl
    exact absurd hname.start (by decide))
  have hstart : isNameStart d = true := hname.start
  have hchars : ∀ c ∈ d :: u, isNameChar c = true := List.all_eq_true.1 hname.chars
  have hsigil : quoteAfter quote sigil = quote := quoteAfter_of_isQuote_eq_false hquote (by decide)
  have hbegins : begins (quoteAfter quote sigil) sigil (d :: u ++ rest) = true := by
    simp [begins, hstart]
  have htake : nameAt sigil (d :: u ++ rest) = d :: u := by
    rw [nameAt, if_pos rfl, takeWhile_append_of_head? hrest, List.takeWhile_eq_self_iff.2 hchars]
  have hdrop : (d :: u ++ rest).dropWhile isNameChar = rest := by
    rw [dropWhile_append_of_head? hrest, List.dropWhile_eq_nil_iff.2 hchars, List.nil_append]
  rw [List.cons_append, slicesFrom_reference hbegins, hsigil, hdrop, htake]
  rfl

theorem slicesFrom_of_all {q : Char} (hq : isQuote q = true) (h : t.all isNameChar = true) :
    slicesFrom (some q) inWord (t ++ r) =
      t.map (fun c => .copied [c]) ++ slicesFrom (some q) (endsInWord inWord t) r := by
  induction t generalizing inWord with
  | nil => rfl
  | cons c t ih =>
    obtain ⟨hc, ht⟩ := Bool.and_eq_true_iff.1 h
    have hprotects : protects (some q) c (t ++ r) = false := by
      simp [protects, ne_escape_of_isNameChar hc]
    have hopen : quoteAfter (some q) c = some q :=
      quoteAfter_of_isQuote_eq_false hq (isQuote_eq_false hc)
    have hsigil : c ≠ sigil := by
      rintro rfl
      exact absurd hc (by decide)
    have hbegins : begins (quoteAfter (some q) c) c (t ++ r) = false := by
      simp [begins, hopen, hsigil]
    rw [List.cons_append, slicesFrom_copied hprotects (.inl hbegins), hopen, ih ht]
    rfl

end Cutting

section Sources

variable {u r : Text} {q : Char}

theorem exists_slices_sigil {name rest : Text} (h : Reads none u (some q))
    (hname : IsName name) (hrest : rest.head?.any isNameChar = false) :
    ∃ here after, slices (u ++ sigil :: name ++ rest) = slices u ++ here ++ after ∧
      here.flatMap Slice.source = sigil :: name ∧ after.flatMap Slice.source = rest ∧
      ∀ value? : Text → Option Text,
        here.flatMap (Slice.fill value?) = if endsInWord false u = true then sigil :: name
          else (value? name).getD (sigil :: name) := by
  have hq : (some q).all isQuote = true := h.all rfl
  have hcut : slices (u ++ sigil :: name ++ rest) =
      slices u ++ slicesFrom (some q) (endsInWord false u) (sigil :: name ++ rest) := by
    rw [List.append_assoc]
    exact slicesFrom_append rfl h rfl
  cases hword : endsInWord false u with
  | false =>
    rw [hword, slicesFrom_sigil hq hname hrest] at hcut
    refine ⟨[.reference true name], _, by rw [hcut, List.append_assoc]; rfl,
      List.flatMap_singleton .., flatMap_source_slicesFrom, fun value? => ?_⟩
    simp [Slice.fill, Slice.name?, Slice.source]
  | true =>
    have hopen : quoteAfter (some q) sigil = some q :=
      quoteAfter_of_isQuote_eq_false hq (by decide)
    rw [hword, List.cons_append, slicesFrom_copied (by simp [protects, sigil]) (.inr rfl), hopen,
      slicesFrom_of_all hq hname.chars] at hcut
    refine ⟨.copied [sigil] :: name.map fun c => .copied [c], _,
      by rw [hcut, List.append_assoc]; rfl, by simp [List.flatMap_map, Slice.source],
      flatMap_source_slicesFrom, fun value? => ?_⟩
    simp [List.flatMap_map]

/-- In quotes, a slice that changes is the mark of variables and the whole name that is bound, where
no word ends. -/
theorem reference_of_fill_ne {value? : Text → Option Text} {before after : List Slice} {s : Slice}
    (h : Reads none u (some q)) (hcut : slices (u ++ r) = before ++ s :: after)
    (hbefore : before.flatMap Slice.source = u) (hne : s.fill value? ≠ s.source) :
    endsInWord false u = false ∧ ∃ name rest, s = .reference true name ∧
      r = sigil :: name ++ rest ∧ IsName name ∧ rest.head?.any isNameChar = false ∧
      value? name = some (s.fill value?) := by
  have hr : (s :: after).flatMap Slice.source = r := by
    have hall : (slices (u ++ r)).flatMap Slice.source = u ++ r := flatMap_source_slicesFrom
    rw [hcut, List.flatMap_append, hbefore] at hall
    exact List.append_cancel_left hall
  obtain ⟨quote, hquote, hreads, hrest⟩ :=
    reads_of_slicesFrom (by rfl) hcut (List.cons_ne_nil s after)
  rw [hbefore] at hreads hrest
  obtain rfl : quote = some q := hreads.unique rfl h
  rw [hr] at hrest
  cases s with
  | copied text => exact absurd rfl hne
  | reference sigiled name =>
    obtain ⟨hword, hname, hsigiled, rest, rfl, hend⟩ := reference_of_slicesFrom hquote hrest.symm
    obtain rfl := hsigiled rfl
    cases hvalue : value? name with
    | none => exact absurd (by simp [Slice.fill, Slice.name?, hvalue]) hne
    | some text =>
      exact ⟨hword, name, rest, rfl, rfl, hname, hend, by simp [Slice.fill, Slice.name?, hvalue]⟩

/-- In a quoted literal, an unprotected mark and a whole name behind it give way to the text of the
name exactly if it is bound and no word ends at the mark; nothing else changes. -/
theorem substitute_in_quotes (h : Reads none u (some q)) :
    (∀ name rest, IsName name → rest.head?.any isNameChar = false →
      ∃ here after, slices (u ++ sigil :: name ++ rest) = slices u ++ here ++ after ∧
        here.flatMap Slice.source = sigil :: name ∧ after.flatMap Slice.source = rest ∧
        ∀ value?, substitute value? (u ++ sigil :: name ++ rest) = substitute value? u ++
          (if endsInWord false u = true then sigil :: name
            else (value? name).getD (sigil :: name)) ++ after.flatMap (Slice.fill value?)) ∧
    ∀ (value? : Text → Option Text) r before s after, slices (u ++ r) = before ++ s :: after →
      before.flatMap Slice.source = u → s.fill value? ≠ s.source →
        endsInWord false u = false ∧ ∃ name rest, s = .reference true name ∧
          r = sigil :: name ++ rest ∧ IsName name ∧ rest.head?.any isNameChar = false ∧
          value? name = some (s.fill value?) := by
  refine ⟨fun name rest hname hrest => ?_, fun value? r before s after hcut hbefore hne =>
    reference_of_fill_ne h hcut hbefore hne⟩
  obtain ⟨here, after, hcut, hsource, hafter, hhere⟩ := exists_slices_sigil h hname hrest
  refine ⟨here, after, hcut, hsource, hafter, fun value? => ?_⟩
  rw [substitute, substituteFrom_eq, ← slices, hcut, List.flatMap_append, List.flatMap_append,
    hhere, substitute, substituteFrom_eq, ← slices]

/-- A reference behind a blank is filled in. -/
theorem substitute_in_quotes_greeting : ∃ (value? : Text → Option Text) (here after : List Slice),
    slices "'hi $name'".toList = slices "'hi ".toList ++ here ++ after ∧
    here.flatMap Slice.source = "$name".toList ∧ after.flatMap Slice.source = ['\''] ∧
    substitute value? "'hi $name'".toList =
      substitute value? "'hi ".toList ++ "Ada".toList ++ after.flatMap (Slice.fill value?) ∧
    substitute value? "'hi $name'".toList = "'hi Ada'".toList := by
  let value? (name : Text) : Option Text := if name = "name".toList then some "Ada".toList else none
  have hreads : Reads none ['\'', 'h', 'i', ' '] (some '\'') :=
    .opens rfl (.inside (by decide) (by decide) (.inside (by decide) (by decide)
      (.inside (by decide) (by decide) (.nil _))))
  obtain ⟨hfilled, -⟩ := substitute_in_quotes hreads
  obtain ⟨here, after, hcut, hhere, hafter, hvalue⟩ :=
    hfilled "name".toList ['\''] ⟨rfl, rfl⟩ rfl
  exact ⟨value?, here, after, hcut, hhere, hafter, hvalue value?, by decide +kernel⟩

/-- Behind a letter, a reference in a literal stays. -/
theorem not_substituted_behind_letter :
    ¬ ∀ (value? : Text → Option Text) (u name rest text : Text) (q : Char),
      Reads none u (some q) → IsName name → rest.head?.any isNameChar = false →
      value? name = some text → text <:+: substitute value? (u ++ sigil :: name ++ rest) := by
  intro hall
  let value? (name : Text) : Option Text := if name = ['x'] then some ['1'] else none
  have hreads : Reads none ['\'', 'a'] (some '\'') :=
    .opens rfl (.inside (by decide) (by decide) (.nil _))
  have hinfix := hall value? ['\'', 'a'] ['x'] ['\''] ['1'] '\'' hreads ⟨rfl, rfl⟩ rfl rfl
  have hsame : substitute value? "'a$x'".toList = "'a$x'".toList := by decide +kernel
  rw [show ['\'', 'a'] ++ sigil :: ['x'] ++ ['\''] = "'a$x'".toList from rfl, hsame] at hinfix
  exact absurd hinfix (by decide)

end Sources

end Stencil
