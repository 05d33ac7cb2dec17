import Stencil.Proofs.Grammar

/-! How a text is cut that another line follows, where every mark is one character. What is begun
and ended before the line break is cut as if nothing followed; what is begun and not ended takes the
break as well, if it ends at all. -/
namespace Stencil

namespace Text

/-- A mark is one character that ends no line. -/
def IsPlain (mark : Text) : Prop := ∃ c, mark = [c] ∧ c ≠ '\n'

section

variable {mark s : Text} (h : mark.IsPlain)
include h

theorem IsPlain.length_eq : mark.length = 1 := by
  obtain ⟨c, rfl, -⟩ := h
  rfl

theorem IsPlain.startsAt_append (u : Text) (hs : s ≠ []) :
    mark.startsAt (s ++ u) = mark.startsAt s := by
  obtain ⟨c, rfl, -⟩ := h
  obtain ⟨a, r, rfl⟩ := List.exists_cons_of_ne_nil hs
  simp [startsAt, List.isPrefixOf]

theorem IsPlain.startsAt_append_break (s rest : Text) :
    mark.startsAt (s ++ '\n' :: rest) = mark.startsAt s := by
  by_cases hs : s = []
  · obtain ⟨c, rfl, hc⟩ := h
    simp [hs, startsAt, List.isPrefixOf, hc]
  · exact h.startsAt_append _ hs

end

theorem drop_append_of_startsAt {mark s : Text} (u : Text) (h : mark.startsAt s = true) :
    (s ++ u).drop mark.length = s.drop mark.length ++ u := by
  obtain ⟨-, r, rfl⟩ := startsAt_iff.1 h
  simp

@[simp] theorem startsAt_nil (mark : Text) : mark.startsAt [] = false := by
  cases mark <;> rfl

/-- Where `u` follows a text, the cut of it stands where it stood, or moves from the end into
`u`. -/
def Moves (u : Text) (a b : Text × Text) : Prop :=
  a.2 ≠ [] ∧ b = (a.1, a.2 ++ u) ∨ a.2 = [] ∧ b.2.length ≤ u.length

/-- Where `u` follows the line, a scan that looks at one line only stops where it did, or goes on
into `u`. -/
theorem scan_append_of_local {σ : Type} {step : σ → Text → Option (Nat × σ)} {u : Text}
    (hlocal : ∀ st t, t ≠ [] → step st (t ++ u) = step st t)
    (hstep : ∀ st c r n st', step st (c :: r) = some (n, st') → n ≤ r.length) {n : Nat} {s : Text}
    (hn : n ≤ s.length) (st : σ) :
    ((scan step n st s).2 ≠ [] ∧
      scan step n st (s ++ u) = ((scan step n st s).1, (scan step n st s).2 ++ u)) ∨
    ((scan step n st s).2 = [] ∧ ∃ st',
      scan step n st (s ++ u) = (s ++ (scan step 0 st' u).1, (scan step 0 st' u).2)) := by
  fun_induction scan step n st s with
  | case1 n st =>
    obtain rfl : n = 0 := by simpa using hn
    exact .inr ⟨rfl, st, rfl⟩
  | case2 n st c r taken rest hr ih =>
    specialize ih (by simpa using hn)
    simp only [List.cons_append, scan, hr] at ih ⊢
    obtain ⟨hne, h⟩ | ⟨he, st', h⟩ := ih
    · exact .inl ⟨hne, by rw [h]⟩
    · exact .inr ⟨he, st', by rw [h]⟩
  | case3 st c r h =>
    have hu := hlocal st (c :: r) (by simp)
    rw [h] at hu
    refine .inl ⟨by simp, ?_⟩
    simp only [List.cons_append] at hu ⊢
    simp only [scan, hu]
  | case4 st c r n st' h taken rest hr ih =>
    have hu := hlocal st (c :: r) (by simp)
    rw [h] at hu
    specialize ih (hstep st c r n st' h)
    simp only [List.cons_append] at hu
    simp only [List.cons_append, scan, hu, hr] at ih ⊢
    obtain ⟨hne, h⟩ | ⟨he, st', h⟩ := ih
    · exact .inl ⟨hne, by rw [h]⟩
    · exact .inr ⟨he, st', by rw [h]⟩

theorem cutWhere_eq_scan (stop : Text → Bool) (t : Text) :
    cutWhere stop t = scan (fun _ r => if stop r then none else some (0, ())) 0 () t := by
  induction t with
  | nil => rfl
  | cons c r ih => by_cases h : stop (c :: r) = true <;> simp [cutWhere, scan, h, ih]

theorem cutWhere_append_of_local {stop : Text → Bool} {u : Text}
    (hlocal : ∀ t, t ≠ [] → stop (t ++ u) = stop t) (s : Text) :
    ((cutWhere stop s).2 ≠ [] ∧
      cutWhere stop (s ++ u) = ((cutWhere stop s).1, (cutWhere stop s).2 ++ u)) ∨
    ((cutWhere stop s).2 = [] ∧
      cutWhere stop (s ++ u) = (s ++ (cutWhere stop u).1, (cutWhere stop u).2)) := by
  simp only [cutWhere_eq_scan]
  refine (scan_append_of_local ?_ ?_ (Nat.zero_le _) ()).imp id (And.imp_right fun ⟨_, h⟩ => h)
  · intro _ t ht
    rw [hlocal t ht]
  · intro _ c r n _ h
    split at h
    · cases h
    · obtain ⟨rfl, -⟩ := Prod.mk.inj (Option.some.inj h)
      exact Nat.zero_le _

theorem moves_scan {σ : Type} {step : σ → Text → Option (Nat × σ)} {u : Text}
    (hlocal : ∀ st t, t ≠ [] → step st (t ++ u) = step st t)
    (hstep : ∀ st c r n st', step st (c :: r) = some (n, st') → n ≤ r.length) (s : Text) (st : σ) :
    Moves u (scan step 0 st s) (scan step 0 st (s ++ u)) := by
  refine (scan_append_of_local hlocal hstep (Nat.zero_le _) st).imp id fun ⟨he, st', h⟩ => ⟨he, ?_⟩
  rw [h]
  exact length_le_of_append (scan_append step 0 st' u)

theorem moves_cutWhere {stop : Text → Bool} {u : Text}
    (hlocal : ∀ t, t ≠ [] → stop (t ++ u) = stop t) (s : Text) :
    Moves u (cutWhere stop s) (cutWhere stop (s ++ u)) := by
  refine (cutWhere_append_of_local hlocal s).imp id fun ⟨he, h⟩ => ⟨he, ?_⟩
  rw [h]
  exact length_le_of_append (cutWhere_append stop u)

end Text

namespace Cut

/-- A text that is cut to its end is cut alike where `u` follows; else some of `u` is taken, or
there is no end. -/
inductive Extends (u : Text) : Cut → Cut → Prop
  | inside (ps : List Piece) (r : Text) : Extends u ⟨ps, r, none⟩ ⟨ps, r ++ u, none⟩
  | across {c c' : Cut} (hc : c.cause ≠ none)
    (h : c'.cause = none → c'.rest.length < u.length) : Extends u c c'

variable {u : Text} {c c' : Cut}

theorem andThen_of_cause_eq_none {f : Text → Cut} (h : c.cause = none) :
    c.andThen f = (f c.rest).after c.pieces := by
  simp [andThen, h]

theorem cause_of_andThen {f : Text → Cut} (h : (c.andThen f).cause = none) : c.cause = none := by
  unfold andThen at h
  split at h
  · exact h
  · assumption

theorem Extends.of_inside (h : Extends u c c') (hc : c.cause = none) :
    c' = ⟨c.pieces, c.rest ++ u, none⟩ := by
  cases h with
  | inside => rfl
  | across h => exact absurd hc h

theorem Extends.of_across (h : Extends u c c') (hc : c.cause ≠ none) (hc' : c'.cause = none) :
    c'.rest.length < u.length := by
  cases h with
  | inside => exact absurd rfl hc
  | across _ h => exact h hc'

theorem Extends.after (ps : List Piece) (h : Extends u c c') :
    Extends u (c.after ps) (c'.after ps) := by
  cases h with
  | inside qs r => exact .inside (ps ++ qs) r
  | across hc h => exact .across hc h

theorem Extends.andThen {f : Text → Cut} (h : Extends u c c')
    (hf : ∀ r, Extends u (f r) (f (r ++ u))) (hle : ∀ r, (f r).rest.length ≤ r.length) :
    Extends u (c.andThen f) (c'.andThen f) := by
  cases h with
  | inside qs r => exact (hf r).after qs
  | across hc h =>
    refine .across (fun hcause => hc (cause_of_andThen hcause)) fun hcause => ?_
    rw [andThen_of_cause_eq_none (cause_of_andThen hcause)]
    exact (hle c'.rest).trans_lt (h (cause_of_andThen hcause))

end Cut

namespace Delimiters

/-- Every mark is one character that ends no line. -/
structure IsPlain (d : Delimiters) : Prop where
  escape : d.escape.IsPlain
  argStart : d.argStart.IsPlain
  argEnd : d.argEnd.IsPlain
  paramStart : d.paramStart.IsPlain
  paramAssign : d.paramAssign.IsPlain
  paramSep : d.paramSep.IsPlain
  paramEnd : d.paramEnd.IsPlain
  evalStart : d.evalStart.IsPlain
  evalEnd : d.evalEnd.IsPlain

/-- A command or an expression begins here. -/
def AtLive (d : Delimiters) (t : Text) : Prop :=
  d.atCommand t = true ∨ d.evalStart.startsAt t = true

theorem not_atLive_nil {d : Delimiters} : ¬ d.AtLive [] := by simp [AtLive, atCommand]

/-- Cutting `t` at one level takes `ps`, which is whole segments, and leaves `r`. -/
inductive Front (d : Delimiters) : Text → List Piece → Text → Prop
  | done (t : Text) : Front d t [] t
  | segment {t t' r : Text} {qs ps : List Piece} (hne : t ≠ []) (hs : d.segment t = ⟨qs, t', none⟩)
    (h : Front d t' ps r) : Front d t (qs ++ ps) r

/-- What a line ends with, in front of `rest`: literal text, or something that has no end in the
line. -/
inductive EndsLine (d : Delimiters) (rest r : Text) : Prop
  | literal (hlive : ¬ d.AtLive r) (hcut : d.cutRaw r = (r, []))
  | begun (hlive : d.AtLive r) (hc : (d.segment r).cause ≠ none)
    (hend : (d.segment (r ++ '\n' :: rest)).cause = none →
      (d.segment (r ++ '\n' :: rest)).rest.length < ('\n' :: rest).length)

theorem Front.spelling_append {d : Delimiters} {t r : Text} {ps : List Piece}
    (h : d.Front t ps r) : Piece.spelling ps ++ r = t := by
  induction h with
  | done => rfl
  | @segment t t' r qs ps hne hs _ ih =>
    have hcovers := d.covers_segment t
    rw [hs] at hcovers
    rw [← hcovers, ← ih]
    simp [Piece.spelling]

theorem Front.pieces {d : Delimiters} {t r : Text} {ps : List Piece} (h : d.Front t ps r) :
    d.pieces t = (d.pieces r).after ps := by
  induction h with
  | done => rfl
  | segment hne hs _ ih =>
    rw [Delimiters.pieces, dif_neg hne, dif_pos (by rw [hs]), hs, ih]
    simp [Cut.after]

variable {d : Delimiters} (hd : d.IsPlain) (rest : Text)

theorem atGap_append (u : Text) {t : Text} (ht : t ≠ []) : atGap (t ++ u) = atGap t := by
  obtain ⟨c, r, rfl⟩ := List.exists_cons_of_ne_nil ht
  rfl

include hd

theorem IsPlain.cutName_append (s : Text) : d.cutName (s ++ '\n' :: rest) =
    ((d.cutName s).1, (d.cutName s).2 ++ '\n' :: rest) := by
  let stop : Text → Bool := fun r => d.paramStart.startsAt r || d.argStart.startsAt r || atGap r
  have hlocal : ∀ t, t ≠ [] → stop (t ++ '\n' :: rest) = stop t := fun t ht => by
    simp only [stop, hd.paramStart.startsAt_append _ ht, hd.argStart.startsAt_append _ ht,
      atGap_append _ ht]
  have hbreak : stop ('\n' :: rest) = true := Bool.or_eq_true_iff.2 (.inr rfl)
  change Text.cutWhere stop _ = ((Text.cutWhere stop s).1, (Text.cutWhere stop s).2 ++ _)
  obtain ⟨-, h⟩ | ⟨he, h⟩ := Text.cutWhere_append_of_local hlocal s
  · exact h
  · have hs := Text.cutWhere_append stop s
    rw [he, List.append_nil] at hs
    rw [h, he, hs, Text.cutWhere, if_pos hbreak, List.append_nil, List.nil_append]

omit hd in
theorem optional_append {kind : TokenKind} {mark t : Text} (hmark : mark.IsPlain) (u : Text)
    (ht : t ≠ []) : optional kind mark (t ++ u) =
      ⟨(optional kind mark t).pieces, (optional kind mark t).rest ++ u, none⟩ := by
  unfold optional
  rw [hmark.startsAt_append u ht]
  split
  · next h => simp only [Text.drop_append_of_startsAt u h]
  · rfl

theorem IsPlain.moves_cutKey (u s : Text) : Text.Moves u (d.cutKey s) (d.cutKey (s ++ u)) := by
  refine Text.moves_cutWhere (fun t ht => ?_) s
  simp only [hd.paramAssign.startsAt_append u ht, hd.paramSep.startsAt_append u ht,
    hd.paramEnd.startsAt_append u ht]

theorem IsPlain.moves_cutValue (u s : Text) :
    Text.Moves u (d.cutValue s) (d.cutValue (s ++ u)) := by
  refine Text.moves_scan (fun depth t ht => ?_) (fun depth c r n depth' h => ?_) s 0
  · simp only [hd.argStart.startsAt_append u ht, hd.argEnd.startsAt_append u ht,
      hd.paramSep.startsAt_append u ht, hd.paramEnd.startsAt_append u ht]
  · simp only [hd.argStart.length_eq, hd.argEnd.length_eq] at h
    grind

theorem IsPlain.moves_cutArgument (u s : Text) :
    Text.Moves u (d.cutArgument s) (d.cutArgument (s ++ u)) := by
  refine Text.moves_scan (fun depth t ht => ?_) (fun depth c r n depth' h => ?_) s 0
  · simp only [hd.argStart.startsAt_append u ht, hd.argEnd.startsAt_append u ht,
      hd.escape.startsAt_append u ht]
  · simp only [hd.argStart.length_eq, hd.argEnd.length_eq, hd.escape.length_eq] at h
    grind

theorem IsPlain.paramValue_append (u : Text) {t : Text} (ht : t ≠ []) :
    d.paramValue (t ++ u) = ⟨(d.paramValue t).pieces, (d.paramValue t).rest ++ u, none⟩ ∨
    (d.paramValue t).rest = [] ∧ (d.paramValue (t ++ u)).rest.length ≤ u.length := by
  unfold paramValue
  rw [hd.paramAssign.startsAt_append u ht]
  split
  · next h =>
    rw [Text.drop_append_of_startsAt u h]
    obtain ⟨-, h⟩ | h := hd.moves_cutValue u (t.drop d.paramAssign.length)
    · simp only [h, true_or]
    · exact .inr h
  · exact .inl rfl

theorem IsPlain.param_append (u s : Text) :
    d.param (s ++ u) = ⟨(d.param s).pieces, (d.param s).rest ++ u, none⟩ ∨
    (d.param s).rest = [] ∧ (d.param (s ++ u)).rest.length ≤ u.length := by
  have hrest : ∀ t, (d.param t).rest =
      (optional .paramSep d.paramSep (d.paramValue (d.cutKey t).2).rest).rest := fun _ => rfl
  have hend : ∀ {r : Text}, r = [] → (optional .paramSep d.paramSep r).rest = [] := by
    rintro _ rfl
    simpa using (covers_optional .paramSep d.paramSep []).rest_length_le
  have hle : ∀ {r : Text} {n : Nat}, r.length ≤ n →
      (optional .paramSep d.paramSep r).rest.length ≤ n :=
    (covers_optional _ _ _).rest_length_le.trans
  obtain ⟨hne, hkey⟩ | ⟨he, hkey⟩ := hd.moves_cutKey u s
  · obtain hvalue | ⟨hvalue, hlen⟩ := hd.paramValue_append u hne
    · by_cases hr : (d.paramValue (d.cutKey s).2).rest = []
      · refine .inr ⟨by rw [hrest, hend hr], ?_⟩
        rw [hrest, hkey]
        exact hle (by simp [hvalue, hr])
      · left
        simp only [param, Cut.after, hkey, hvalue, optional_append hd.paramSep u hr]
    · refine .inr ⟨by rw [hrest, hend hvalue], ?_⟩
      rw [hrest, hkey]
      exact hle hlen
  · right
    refine ⟨?_, hle ((d.covers_paramValue _).rest_length_le.trans hkey)⟩
    have hnil : (d.paramValue (d.cutKey s).2).rest = [] := by
      simpa [he] using (d.covers_paramValue (d.cutKey s).2).rest_length_le
    rw [hrest, hend hnil]

omit hd in
theorem params_rest_lt {t : Text} (h : t ≠ []) : (d.params t).rest.length < t.length := by
  by_cases he : d.paramEnd.startsAt t = true
  · rw [params, dif_neg h, dif_pos he]
    exact Text.length_lt_of_append (Text.append_drop_of_startsAt he) (Text.startsAt_iff.1 he).1
  · rw [params, dif_neg h, dif_neg he]
    exact (d.covers_params _).rest_length_le.trans_lt
      (d.param_rest_lt h (Bool.eq_false_iff.2 he))

theorem IsPlain.extends_params {u : Text} (hu : u ≠ []) (s : Text) :
    Cut.Extends u (d.params s) (d.params (s ++ u)) := by
  fun_induction params d s with
  | case1 => exact .across (by simp) fun _ => params_rest_lt hu
  | case2 t hne he =>
    rw [params, dif_neg (by simp [hne]), dif_pos (by rwa [hd.paramEnd.startsAt_append u hne]),
      Text.drop_append_of_startsAt u he]
    exact .inside _ _
  | case3 t hne he p ih =>
    have hsplit : d.params (t ++ u) = _ := params_of_entry (by simp [hne])
      (by rw [hd.paramEnd.startsAt_append u hne]; exact Bool.eq_false_iff.2 he)
    rw [hsplit]
    obtain h | ⟨hrest, hle⟩ := hd.param_append u t
    · rw [h]
      exact ih.after p.pieces
    · refine .across (by simp [p, hrest, params, Cut.after]) fun hc => ?_
      refine (params_rest_lt fun hnil => ?_).trans_le hle
      simp [hnil, Cut.after, params] at hc

theorem IsPlain.extends_paramList (s : Text) : Cut.Extends ('\n' :: rest) (d.paramList s)
    (d.paramList (s ++ '\n' :: rest)) := by
  unfold paramList
  rw [hd.paramStart.startsAt_append_break]
  split
  · next h =>
    rw [Text.drop_append_of_startsAt _ h]
    exact (hd.extends_params (by simp) _).after _
  · exact .inside [] s

theorem IsPlain.argument?_append (s : Text) :
    (∃ a r, d.argument? s = some (a, r) ∧
      d.argument? (s ++ '\n' :: rest) = some (a, r ++ '\n' :: rest)) ∨
    d.argument? s = none ∧
      ∀ a r, d.argument? (s ++ '\n' :: rest) = some (a, r) → r.length < rest.length + 1 := by
  unfold argument?
  rw [hd.argStart.startsAt_append_break]
  split
  · next h =>
    simp only [Text.drop_append_of_startsAt _ h]
    obtain ⟨hne, hcut⟩ | ⟨he, hle⟩ :=
      hd.moves_cutArgument ('\n' :: rest) (s.drop d.argStart.length)
    · simp only [hcut, hd.argEnd.startsAt_append _ hne]
      split
      · next hend => exact .inl ⟨_, _, rfl, by rw [Text.drop_append_of_startsAt _ hend]⟩
      · exact .inr ⟨rfl, by simp⟩
    · refine .inr ⟨by simp [he], fun a r har => ?_⟩
      split at har <;> rename_i hend
      · obtain ⟨-, rfl⟩ := Prod.mk.inj (Option.some.inj har)
        exact (Text.length_lt_of_append (Text.append_drop_of_startsAt hend)
          (Text.startsAt_iff.1 hend).1).trans_le hle
      · cases har
  · exact .inr ⟨rfl, by simp⟩

theorem IsPlain.extends_arguments (s : Text) : Cut.Extends ('\n' :: rest) (d.arguments s)
    (d.arguments (s ++ '\n' :: rest)) := by
  fun_induction arguments d s with
  | case1 s a r h ih =>
    obtain ⟨a', r', h', hu⟩ | ⟨hnone, -⟩ := hd.argument?_append rest s
    · obtain ⟨rfl, rfl⟩ := Prod.mk.inj (Option.some.inj (h.symm.trans h'))
      rw [arguments_of_some hu]
      exact ih.after _
    · rw [h] at hnone
      cases hnone
  | case2 s h =>
    obtain ⟨a, r, h', -⟩ | ⟨-, hlt⟩ := hd.argument?_append rest s
    · rw [h] at h'
      cases h'
    by_cases hs : d.argStart.startsAt s = true
    · rw [if_pos hs]
      refine .across (by simp) fun hc => ?_
      cases hu : d.argument? (s ++ '\n' :: rest) with
      | none =>
        rw [arguments_of_none hu, hd.argStart.startsAt_append_break, if_pos hs] at hc
        cases hc
      | some cut =>
        rw [arguments_of_some hu]
        exact (d.covers_arguments _).rest_length_le.trans_lt (hlt _ _ hu)
    · have hnone : d.argument? (s ++ '\n' :: rest) = none := by
        simp [argument?, hd.argStart.startsAt_append_break, hs]
      rw [arguments_of_none hnone, hd.argStart.startsAt_append_break, if_neg hs]
      exact .inside [] s

theorem IsPlain.extends_command (s : Text) : Cut.Extends ('\n' :: rest) (d.command s)
    (d.command (s ++ '\n' :: rest)) := by
  unfold command
  rw [hd.cutName_append]
  exact ((hd.extends_paramList rest _).andThen (hd.extends_arguments rest)
    fun _ => (d.covers_arguments _).rest_length_le).after _

theorem IsPlain.extends_expression {s : Text} (h : d.evalStart.startsAt s = true) :
    Cut.Extends ('\n' :: rest) (d.expression s) (d.expression (s ++ '\n' :: rest)) := by
  unfold expression
  rw [Text.drop_append_of_startsAt _ h]
  obtain ⟨hne, hcut⟩ | ⟨he, hle⟩ := Text.moves_cutWhere
    (fun t ht => hd.evalEnd.startsAt_append ('\n' :: rest) ht) (s.drop d.evalStart.length)
  · simp only [hcut, hd.evalEnd.startsAt_append _ hne]
    split
    · next hend =>
      rw [Text.drop_append_of_startsAt _ hend]
      exact .inside _ _
    · exact .across (by simp) (by simp)
  · refine .across (by simp [he]) fun hc => ?_
    dsimp only at hc ⊢
    split at hc <;> rename_i hend
    · rw [if_pos hend]
      exact (Text.length_lt_of_append (Text.append_drop_of_startsAt hend)
        (Text.startsAt_iff.1 hend).1).trans_le hle
    · cases hc

theorem IsPlain.atCommand_append_break (s : Text) :
    d.atCommand (s ++ '\n' :: rest) = d.atCommand s := by
  obtain ⟨c, hc, hne⟩ := hd.escape
  match s with
  | [] => simp [atCommand, hc, Text.startsAt, List.isPrefixOf, hne]
  | [a] => simp [atCommand, hc, atGap, isGap]
  | a :: b :: r => simp [atCommand, hc, Text.startsAt, List.isPrefixOf, atGap]

theorem IsPlain.atDoubled_append_break (s : Text) :
    d.atDoubled (s ++ '\n' :: rest) = d.atDoubled s := by
  obtain ⟨c, hc, hne⟩ := hd.escape
  match s with
  | [] => simp [atDoubled, hc, Text.startsAt, List.isPrefixOf, hne]
  | [a] => simp [atDoubled, hc, Text.startsAt, List.isPrefixOf, hne]
  | a :: b :: r => simp [atDoubled, hc, Text.startsAt, List.isPrefixOf]

theorem IsPlain.atLive_append_break (s : Text) :
    d.AtLive (s ++ '\n' :: rest) ↔ d.AtLive s := by
  rw [AtLive, AtLive, hd.atCommand_append_break, hd.evalStart.startsAt_append_break]

theorem IsPlain.cutRaw_append_break (s : Text) :
    ((d.cutRaw s).2 ≠ [] ∧
      d.cutRaw (s ++ '\n' :: rest) = ((d.cutRaw s).1, (d.cutRaw s).2 ++ '\n' :: rest)) ∨
    ((d.cutRaw s).2 = [] ∧ d.cutRaw (s ++ '\n' :: rest) =
      (s ++ (d.cutRaw ('\n' :: rest)).1, (d.cutRaw ('\n' :: rest)).2)) := by
  refine (Text.scan_append_of_local (fun _ t _ => ?_) (fun _ c r n _ h => ?_)
    (Nat.zero_le _) ()).imp id (And.imp_right fun ⟨_, h⟩ => h)
  · simp only [hd.atCommand_append_break, hd.evalStart.startsAt_append_break,
      hd.atDoubled_append_break]
  · split at h
    · cases h
    · split at h
      · next hdoubled =>
        obtain ⟨e, he, -⟩ := hd.escape
        cases r with
        | nil => simp [atDoubled, he] at hdoubled
        | cons b r => simp_all
      · obtain ⟨rfl, -⟩ := Prod.mk.inj (Option.some.inj h)
        exact Nat.zero_le _

omit hd in
theorem segment_of_not_atLive {t : Text} (h : ¬ d.AtLive t) :
    d.segment t = ⟨[.lexeme .raw (d.cutRaw t).1], (d.cutRaw t).2, none⟩ := by
  obtain ⟨hc, he⟩ := not_or.1 h
  rw [segment, if_neg hc, if_neg he]

theorem IsPlain.extends_segment {s : Text} (h : d.AtLive s) :
    Cut.Extends ('\n' :: rest) (d.segment s) (d.segment (s ++ '\n' :: rest)) := by
  unfold segment
  rw [hd.atCommand_append_break, hd.evalStart.startsAt_append_break]
  split
  · next hc =>
    rw [Text.drop_append_of_startsAt _ (d.startsAt_of_atCommand hc)]
    exact (hd.extends_command rest _).after _
  · next hc =>
    rw [if_pos (h.resolve_left hc), if_pos (h.resolve_left hc)]
    exact hd.extends_expression rest (h.resolve_left hc)

/-- A line is whole segments that are cut alike if more follows, and what it ends with. -/
theorem IsPlain.exists_front (s : Text) :
    ∃ ps r, d.Front s ps r ∧ d.Front (s ++ '\n' :: rest) ps (r ++ '\n' :: rest) ∧
      d.EndsLine rest r := by
  fun_induction pieces d s with
  | case1 =>
    exact ⟨[], [], .done _, .done _, .literal not_atLive_nil rfl⟩
  | case2 s hne hc ih =>
    obtain ⟨ps, r, hfront, hfront', hr⟩ := ih
    have hbreak : s ++ '\n' :: rest ≠ [] := by simp
    have hwhole : d.segment s = ⟨(d.segment s).pieces, (d.segment s).rest, none⟩ := by rw [← hc]
    have further : d.segment (s ++ '\n' :: rest) =
        ⟨(d.segment s).pieces, (d.segment s).rest ++ '\n' :: rest, none⟩ →
        ∃ ps r, d.Front s ps r ∧ d.Front (s ++ '\n' :: rest) ps (r ++ '\n' :: rest) ∧
          d.EndsLine rest r := fun hs =>
      ⟨_, r, .segment hne hwhole hfront, .segment hbreak hs hfront', hr⟩
    by_cases hlive : d.AtLive s
    · exact further ((hd.extends_segment rest hlive).of_inside hc)
    · have hlive' : ¬ d.AtLive (s ++ '\n' :: rest) := by rwa [hd.atLive_append_break]
      obtain ⟨-, hcut⟩ | ⟨hrest, -⟩ := hd.cutRaw_append_break rest s
      · refine further ?_
        rw [segment_of_not_atLive hlive, segment_of_not_atLive hlive', hcut]
      · refine ⟨[], s, .done s, .done _, .literal hlive (Prod.ext ?_ hrest)⟩
        have hs : (d.cutRaw s).1 ++ (d.cutRaw s).2 = s := Text.scan_append _ _ _ _
        rwa [hrest, List.append_nil] at hs
  | case3 s hne hc =>
    by_cases hlive : d.AtLive s
    · exact ⟨[], s, .done s, .done _,
        .begun hlive hc ((hd.extends_segment rest hlive).of_across hc)⟩
    · exact absurd (by rw [segment_of_not_atLive hlive]) hc

omit hd in
theorem pieces_literal {w : Text} (hlive : ¬ d.AtLive w) (hcut : d.cutRaw w = (w, [])) :
    d.pieces w = ⟨if w = [] then [] else [.lexeme .raw w], [], none⟩ := by
  rw [pieces, segment_of_not_atLive hlive, hcut]
  split
  · rfl
  · simp [pieces, Cut.after]

/-- Literal text at the end of a line is one piece with that of the next line. -/
theorem IsPlain.pieces_literal_append {w : Text} (hlive : ¬ d.AtLive w)
    (hcut : d.cutRaw w = (w, [])) : d.pieces (w ++ '\n' :: rest) =
      (d.pieces (d.cutRaw ('\n' :: rest)).2).after
        [.lexeme .raw (w ++ (d.cutRaw ('\n' :: rest)).1)] := by
  have hraw : d.cutRaw (w ++ '\n' :: rest) =
      (w ++ (d.cutRaw ('\n' :: rest)).1, (d.cutRaw ('\n' :: rest)).2) := by
    obtain ⟨h, -⟩ | ⟨-, h⟩ := hd.cutRaw_append_break rest w
    · exact absurd (by rw [hcut]) h
    · exact h
  rw [pieces, dif_neg (by simp), segment_of_not_atLive (by rwa [hd.atLive_append_break]), hraw]
  simp

theorem IsPlain.exists_cutRaw_break : ∃ r, (d.cutRaw ('\n' :: rest)).1 = '\n' :: r := by
  have hlive : ¬ d.AtLive ('\n' :: rest) :=
    (hd.atLive_append_break rest []).not.2 not_atLive_nil
  have hne : (d.cutRaw ('\n' :: rest)).1 ≠ [] := by
    refine Text.scan_fst_ne_nil ?_
    obtain ⟨hc, he⟩ := not_or.1 hlive
    simp only [hc, he, Bool.or_self, Bool.false_eq_true, if_false]
    split <;> simp
  obtain ⟨c, r, hr⟩ := List.exists_cons_of_ne_nil hne
  have happend : (d.cutRaw ('\n' :: rest)).1 ++ (d.cutRaw ('\n' :: rest)).2 = '\n' :: rest :=
    Text.scan_append _ _ _ _
  rw [hr] at happend
  obtain ⟨rfl, -⟩ := List.cons.inj happend
  exact ⟨r, hr⟩

end Delimiters
end Stencil
