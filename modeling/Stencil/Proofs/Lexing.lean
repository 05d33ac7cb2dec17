import Mathlib
import Stencil.Config
import Stencil.Token.Lexer

/-! What cutting a template into tokens keeps: its text, and the places of the pieces. -/
namespace Stencil

theorem append_eq_append_cons {α : Type} {xs ys before after : List α} {x : α}
    (h : xs ++ ys = before ++ x :: after) :
    (∃ more, before = xs ++ more ∧ ys = more ++ x :: after) ∨
      ∃ more, xs = before ++ x :: more ∧ after = more ++ ys := by
  obtain hlater | ⟨more, rfl, hmore⟩ := List.append_eq_append_iff.1 h
  · exact .inl hlater
  · cases more with
    | nil => exact .inl ⟨[], by simp, hmore.symm⟩
    | cons y more =>
      obtain ⟨rfl, rfl⟩ := List.cons.inj hmore
      exact .inr ⟨more, rfl, rfl⟩

namespace Position

/-- The place where a text ends: a row for each line break, and a column for each character after
the last. -/
def endOf (t : Text) : Position := ⟨t.count '\n', (t.reverse.takeWhile (· ≠ '\n')).length⟩

theorem start_after (t : Text) : start.after t = endOf t := by
  induction t using List.reverseRecOn with
  | nil => rfl
  | append_singleton t c ih =>
    rw [after_append, ih]
    by_cases hc : c = '\n' <;> simp [after, next, endOf, hc]

theorem after_of_not_mem {t : Text} (h : '\n' ∉ t) (p : Position) :
    p.after t = ⟨p.row, p.col + t.length⟩ := by
  induction t generalizing p with
  | nil => rfl
  | cons c t ih =>
    obtain ⟨hc, ht⟩ := not_or.1 (mt List.mem_cons.2 h)
    change (p.next c).after t = _
    rw [ih ht, next, if_neg (Ne.symm hc), List.length_cons]
    simp only [mk.injEq, true_and]
    omega

theorem after_of_col_eq_zero (row : Nat) (t : Text) :
    after ⟨row, 0⟩ t = ⟨row + (endOf t).row, (endOf t).col⟩ := by
  induction t using List.reverseRecOn with
  | nil => rfl
  | append_singleton t c ih =>
    rw [after_append, ih]
    by_cases hc : c = '\n' <;> simp [after, next, endOf, hc, Nat.add_assoc]

end Position

namespace Token

theorem flatMap_text_place (p : Position) (ls : List Lexeme) :
    (place p ls).flatMap Token.text = Lexeme.spelling ls := by
  induction ls generalizing p with
  | nil => rfl
  | cons l ls ih => simp only [place, List.flatMap_cons, ih, Lexeme.spelling]

theorem place_append (p : Position) (ls ls' : List Lexeme) :
    place p (ls ++ ls') = place p ls ++ place (p.after (Lexeme.spelling ls)) ls' := by
  induction ls generalizing p with
  | nil => rfl
  | cons l ls ih =>
    rw [List.cons_append, place, ih, place, List.cons_append, ← Position.after_append]
    rfl

theorem position_of_place_eq {p : Position} {ls : List Lexeme} {before after : List Token}
    {token : Token} (h : place p ls = before ++ token :: after) :
    token.position = p.after (before.flatMap Token.text) := by
  induction before generalizing p ls with
  | nil =>
    cases ls with
    | nil => simp [place] at h
    | cons l ls =>
      obtain ⟨rfl, -⟩ := List.cons.inj h
      rfl
  | cons b before ih =>
    cases ls with
    | nil => simp [place] at h
    | cons l ls =>
      obtain ⟨rfl, ht⟩ := List.cons.inj h
      rw [ih ht, List.flatMap_cons, Position.after_append]

end Token

namespace Delimiters

variable (d : Delimiters)

/-- What a piece becomes once the slices are cut as well. -/
def lexPiece : Piece → Lexing
  | .lexeme kind text => ⟨[⟨kind, text⟩], none⟩
  | .slice s => d.lex s

/-- The lexing of pieces in a row, behind which `cause` may stop the cutting. -/
def lexPieces (ps : List Piece) (cause : Option LexCause) : Lexing :=
  (ps.map d.lexPiece).foldr Lexing.append ⟨[], cause⟩

/-- The lexemes of a row of pieces in which nothing stops the cutting. -/
def lexemes (ps : List Piece) : List Lexeme := ps.flatMap fun p => (d.lexPiece p).lexemes

theorem lex_eq (t : Text) : d.lex t = d.lexPieces (d.pieces t).pieces (d.pieces t).cause := by
  rw [lex, lexPieces, ← List.attach_map_val (f := d.lexPiece)]
  refine congrArg (List.foldr Lexing.append _) (List.map_congr_left fun p _ => ?_)
  obtain ⟨_ | _, _⟩ := p <;> rfl

/-- What passes from all slices of a text to the text holds of every text. -/
theorem lex_induction {motive : Text → Prop}
    (h : ∀ t, (∀ s, .slice s ∈ (d.pieces t).pieces → motive s) → motive t) (t : Text) :
    motive t := by
  induction hn : t.length using Nat.strongRecOn generalizing t with
  | ind n ih =>
    refine h t fun s hs => ih s.length ?_ s rfl
    rw [← hn]
    exact d.slice_length_lt_of_pieces hs

theorem lexPieces_cons (p : Piece) (ps : List Piece) (cause : Option LexCause) :
    d.lexPieces (p :: ps) cause = (d.lexPiece p).append (d.lexPieces ps cause) := rfl

theorem lexPieces_of_cause_eq_none {ps : List Piece} {cause : Option LexCause}
    (h : (d.lexPieces ps cause).cause = none) :
    cause = none ∧ (∀ s, .slice s ∈ ps → (d.lex s).cause = none) ∧
      (d.lexPieces ps cause).lexemes = d.lexemes ps := by
  induction ps with
  | nil => exact ⟨h, by simp, rfl⟩
  | cons p ps ih =>
    rw [lexPieces_cons] at h ⊢
    unfold Lexing.append at h ⊢
    cases hp : (d.lexPiece p).cause with
    | some k => simp [hp] at h
    | none =>
      simp only [hp] at h ⊢
      obtain ⟨hc, hs, hl⟩ := ih h
      refine ⟨hc, ?_, by rw [hl]; rfl⟩
      intro s hm
      rcases List.mem_cons.1 hm with rfl | hm
      · exact hp
      · exact hs s hm

theorem lexPieces_of_cause_eq_some {ps : List Piece} {cause : Option LexCause} {k : LexCause}
    (h : (d.lexPieces ps cause).cause = some k) :
    (cause = some k ∧ (∀ s, .slice s ∈ ps → (d.lex s).cause = none) ∧
      (d.lexPieces ps cause).lexemes = d.lexemes ps) ∨
    ∃ before s after, ps = before ++ .slice s :: after ∧
      (∀ u, .slice u ∈ before → (d.lex u).cause = none) ∧ (d.lex s).cause = some k ∧
      (d.lexPieces ps cause).lexemes = d.lexemes before ++ (d.lex s).lexemes := by
  induction ps with
  | nil => exact .inl ⟨h, by simp, rfl⟩
  | cons p ps ih =>
    rw [lexPieces_cons] at h ⊢
    unfold Lexing.append at h ⊢
    cases hp : (d.lexPiece p).cause with
    | some k' =>
      simp only [hp] at h ⊢
      cases p with
      | lexeme kind text => simp [lexPiece] at hp
      | slice s => exact .inr ⟨[], s, ps, rfl, by simp, hp.trans h, rfl⟩
    | none =>
      simp only [hp] at h ⊢
      have hslice : ∀ {qs : List Piece}, (∀ s, .slice s ∈ qs → (d.lex s).cause = none) →
          ∀ s, .slice s ∈ p :: qs → (d.lex s).cause = none := by
        intro qs hq s hm
        rcases List.mem_cons.1 hm with rfl | hm
        · exact hp
        · exact hq s hm
      rcases ih h with ⟨hc, hs, hl⟩ | ⟨before, s, after, rfl, hb, hs, hl⟩
      · exact .inl ⟨hc, hslice hs, by rw [hl]; rfl⟩
      · exact .inr ⟨p :: before, s, after, rfl, hslice hb, hs, by rw [hl]; simp [lexemes]⟩

theorem spelling_lexemes {ps : List Piece}
    (h : ∀ s, .slice s ∈ ps → Lexeme.spelling (d.lex s).lexemes = s) :
    Lexeme.spelling (d.lexemes ps) = Piece.spelling ps := by
  induction ps with
  | nil => rfl
  | cons p ps ih =>
    have hp : Lexeme.spelling (d.lexPiece p).lexemes = p.text := by
      cases p with
      | lexeme kind text => simp [lexPiece, Lexeme.spelling, Piece.text]
      | slice s => exact h s (by simp)
    have hps := ih fun s hs => h s (by simp [hs])
    simp only [Lexeme.spelling, lexemes, Piece.spelling, List.flatMap_cons,
      List.flatMap_append] at hp hps ⊢
    rw [hp, hps]

theorem rest_pieces {t : Text} (h : (d.pieces t).cause = none) : (d.pieces t).rest = [] := by
  fun_induction pieces d t with
  | case1 => rfl
  | case2 t _ _ ih => exact ih h
  | case3 t _ hc => exact absurd h hc

theorem spelling_lex {t : Text} (h : (d.lex t).cause = none) :
    Lexeme.spelling (d.lex t).lexemes = t := by
  induction t using d.lex_induction with
  | h t ih =>
    rw [lex_eq] at h ⊢
    obtain ⟨hc, hs, hl⟩ := d.lexPieces_of_cause_eq_none h
    have hcover : Piece.spelling (d.pieces t).pieces ++ (d.pieces t).rest = t :=
      d.covers_pieces t
    rw [hl, d.spelling_lexemes fun s hm => ih s hm (hs s hm)]
    rwa [d.rest_pieces hc, List.append_nil] at hcover

/-- All slices among `ps` are cut to the end. -/
def Cuts (ps : List Piece) : Prop := ∀ s, .slice s ∈ ps → (d.lex s).cause = none

section

variable {d : Delimiters} {ps qs : List Piece}

theorem arguments_of_some {t a r : Text} (h : d.argument? t = some (a, r)) :
    d.arguments t = (d.arguments r).after
      [.lexeme .argStart d.argStart, .slice a, .lexeme .argEnd d.argEnd] := by
  rw [arguments]
  split <;> rename_i h'
  · obtain ⟨rfl, rfl⟩ := Prod.mk.inj (Option.some.inj (h.symm.trans h'))
    rfl
  · simp [h] at h'

theorem arguments_of_none {t : Text} (h : d.argument? t = none) : d.arguments t =
    ⟨[], t, if d.argStart.startsAt t then some .unbalanced else none⟩ := by
  rw [arguments]
  split <;> simp_all

theorem params_of_entry {t : Text} (h : t ≠ []) (he : d.paramEnd.startsAt t = false) :
    d.params t = (d.params (d.param t).rest).after (d.param t).pieces := by
  rw [params, dif_neg h, dif_neg (Bool.eq_false_iff.1 he)]

@[simp] theorem lexemes_append : d.lexemes (ps ++ qs) = d.lexemes ps ++ d.lexemes qs :=
  List.flatMap_append

@[simp] theorem lexemes_lexeme {kind : TokenKind} {t : Text} :
    d.lexemes (.lexeme kind t :: ps) = ⟨kind, t⟩ :: d.lexemes ps := rfl

@[simp] theorem lexemes_slice {s : Text} :
    d.lexemes (.slice s :: ps) = (d.lex s).lexemes ++ d.lexemes ps := rfl

@[simp] theorem cuts_nil : d.Cuts [] := by simp [Cuts]

@[simp] theorem cuts_append : d.Cuts (ps ++ qs) ↔ d.Cuts ps ∧ d.Cuts qs := by
  simp [Cuts, or_imp, forall_and]

@[simp] theorem cuts_lexeme {kind : TokenKind} {t : Text} :
    d.Cuts (.lexeme kind t :: ps) ↔ d.Cuts ps := by
  simp [Cuts]

@[simp] theorem cuts_slice {s : Text} :
    d.Cuts (.slice s :: ps) ↔ (d.lex s).cause = none ∧ d.Cuts ps := by
  simp [Cuts]

theorem cause_lexPieces {cause : Option LexCause} (h : d.Cuts ps) :
    (d.lexPieces ps cause).cause = cause := by
  induction ps with
  | nil => rfl
  | cons p ps ih =>
    have hp : (d.lexPiece p).cause = none ∧ d.Cuts ps := by
      cases p with
      | lexeme => exact ⟨rfl, cuts_lexeme.1 h⟩
      | slice s => exact cuts_slice.1 h
    rw [lexPieces_cons, Lexing.append, hp.1]
    exact ih hp.2

/-- A text is cut to the end where its pieces and its slices are. -/
theorem cause_lex_eq_none_iff {t : Text} :
    (d.lex t).cause = none ↔ (d.pieces t).cause = none ∧ d.Cuts (d.pieces t).pieces := by
  rw [lex_eq]
  constructor
  · intro h
    obtain ⟨hc, hs, -⟩ := d.lexPieces_of_cause_eq_none h
    exact ⟨hc, hs⟩
  · rintro ⟨hc, hs⟩
    rw [cause_lexPieces hs, hc]

theorem lexemes_lex {t : Text} (h : (d.lex t).cause = none) :
    (d.lex t).lexemes = d.lexemes (d.pieces t).pieces := by
  rw [lex_eq] at h ⊢
  exact (d.lexPieces_of_cause_eq_none h).2.2

theorem spelling_lexemes_of_cuts (h : d.Cuts ps) :
    Lexeme.spelling (d.lexemes ps) = Piece.spelling ps :=
  d.spelling_lexemes fun s hm => d.spelling_lex (h s hm)

end

/-- What the text goes on with where `cause` stops the cutting at one level. -/
def Stops (rest : Text) : LexCause → Prop
  | .unbalanced => d.argStart.startsAt rest = true
  | .unterminated => d.evalStart.startsAt rest = true
  | .expected wanted found => wanted = d.paramEnd ∧ found = [] ∧ rest = []

theorem stops_params {t : Text} : ∀ k ∈ (d.params t).cause, d.Stops (d.params t).rest k := by
  fun_induction params d t with
  | case1 => simp [Stops]
  | case2 => simp
  | case3 t _ _ p ih => exact ih

theorem stops_arguments {t : Text} :
    ∀ k ∈ (d.arguments t).cause, d.Stops (d.arguments t).rest k := by
  fun_induction arguments d t with
  | case1 t a r _ ih => exact ih
  | case2 t _ =>
    by_cases h : d.argStart.startsAt t = true <;> simp [h, Stops]

theorem stops_command {t : Text} : ∀ k ∈ (d.command t).cause, d.Stops (d.command t).rest k := by
  intro k hk
  have hlist : ∀ k ∈ (d.paramList (d.cutName t).2).cause,
      d.Stops (d.paramList (d.cutName t).2).rest k := by
    unfold paramList
    split
    · exact d.stops_params
    · simp
  simp only [command, Cut.after, Cut.andThen] at hk ⊢
  split at hk <;> rename_i hc
  · exact hlist k hk
  · exact d.stops_arguments k hk

theorem stops_segment {t : Text} : ∀ k ∈ (d.segment t).cause, d.Stops (d.segment t).rest k := by
  unfold segment
  split
  · exact d.stops_command
  · split
    · next he =>
      unfold expression
      dsimp only
      split
      · simp
      · simp [Stops, he]
    · simp

theorem stops_pieces {t : Text} : ∀ k ∈ (d.pieces t).cause, d.Stops (d.pieces t).rest k := by
  fun_induction pieces d t with
  | case1 => simp
  | case2 t _ _ ih => exact ih
  | case3 t _ _ => exact d.stops_segment

/-- Cutting `t` at all its levels cuts the slice `s`, behind `before`. -/
inductive Nested : Text → Text → Text → Prop
  | whole (t : Text) : Nested t [] t
  | inner {t s before u : Text} {ps qs : List Piece}
      (h : (d.pieces t).pieces = ps ++ .slice s :: qs) (hn : Nested s before u) :
      Nested t (Piece.spelling ps ++ before) u

/-- Where `cause` stops the cutting of `t`, between `before` and `rest`: inside some slice. -/
def StopsBetween (t before rest : Text) : LexCause → Prop
  | .unbalanced => d.argStart.startsAt rest = true
  | .unterminated => d.evalStart.startsAt rest = true
  | .expected wanted found => wanted = d.paramEnd ∧ found = [] ∧
      ∃ front s, d.Nested t front s ∧ before = front ++ s ∧
        (d.pieces s).cause = some (.expected wanted found)

theorem startsAt_append {mark t : Text} (u : Text) (h : mark.startsAt t = true) :
    mark.startsAt (t ++ u) = true := by
  obtain ⟨hne, r, rfl⟩ := Text.startsAt_iff.1 h
  exact Text.startsAt_iff.2 ⟨hne, r ++ u, by rw [List.append_assoc]⟩

theorem StopsBetween.inner {t s before rest back : Text} {ps qs : List Piece} {k : LexCause}
    (hp : (d.pieces t).pieces = ps ++ .slice s :: qs) (h : d.StopsBetween s before rest k) :
    d.StopsBetween t (Piece.spelling ps ++ before) (rest ++ back) k := by
  cases k with
  | unbalanced => exact startsAt_append back h
  | unterminated => exact startsAt_append back h
  | expected wanted found =>
    obtain ⟨hw, hf, front, u, hn, rfl, hu⟩ := h
    exact ⟨hw, hf, _, u, .inner hp hn, by rw [List.append_assoc], hu⟩

theorem lex_stopsBetween {t : Text} {k : LexCause} (h : (d.lex t).cause = some k) :
    ∃ rest, Lexeme.spelling (d.lex t).lexemes ++ rest = t ∧
      d.StopsBetween t (Lexeme.spelling (d.lex t).lexemes) rest k := by
  induction t using d.lex_induction generalizing k with
  | h t ih =>
    have hcover : Piece.spelling (d.pieces t).pieces ++ (d.pieces t).rest = t :=
      d.covers_pieces t
    rw [lex_eq] at h ⊢
    rcases d.lexPieces_of_cause_eq_some h with ⟨hc, hs, hl⟩ | ⟨before, s, after, hp, hb, hs, hl⟩
    · have hstop := d.stops_pieces k hc
      rw [hl, d.spelling_lexemes fun s hm => d.spelling_lex (hs s hm)]
      refine ⟨(d.pieces t).rest, hcover, ?_⟩
      cases k with
      | unbalanced => exact hstop
      | unterminated => exact hstop
      | expected wanted found =>
        obtain ⟨hw, hf, hr⟩ := hstop
        rw [hr, List.append_nil] at hcover
        exact ⟨hw, hf, [], t, .whole t, hcover, hc⟩
    · obtain ⟨rest, hrest, hstop⟩ := ih s (by simp [hp]) hs
      have hfront : Lexeme.spelling (d.lexemes before ++ (d.lex s).lexemes) =
          Piece.spelling before ++ Lexeme.spelling (d.lex s).lexemes := by
        rw [← d.spelling_lexemes fun u hu => d.spelling_lex (hb u hu)]
        simp [Lexeme.spelling]
      refine ⟨rest ++ (Piece.spelling after ++ (d.pieces t).rest), ?_, ?_⟩
      · calc
          _ = Piece.spelling before ++ (Lexeme.spelling (d.lex s).lexemes ++ rest) ++
              (Piece.spelling after ++ (d.pieces t).rest) := by
            rw [hl, hfront]
            simp only [List.append_assoc]
          _ = Piece.spelling (d.pieces t).pieces ++ (d.pieces t).rest := by
            rw [hrest, hp]
            simp [Piece.spelling, Piece.text]
          _ = t := hcover
      · rw [hl, hfront]
        exact hstop.inner d hp

end Delimiters

theorem tokenize_eq_ok_iff {d : Delimiters} {t : Text} {tokens : List Token} :
    tokenize d t = .ok tokens ↔
      (d.lex t).cause = none ∧ Token.place .start (d.lex t).lexemes = tokens := by
  unfold tokenize
  cases hc : (d.lex t).cause <;> simp [hc]

theorem tokenize_eq_error_iff {d : Delimiters} {t : Text} {fault : Fault LexCause} :
    tokenize d t = .error fault ↔ (d.lex t).cause = some fault.cause ∧
      Position.start.after (Lexeme.spelling (d.lex t).lexemes) = fault.position := by
  unfold tokenize
  obtain ⟨cause, position⟩ := fault
  cases hc : (d.lex t).cause <;> simp [hc]

theorem Config.delimiters_initial : Config.initial.delimiters =
    ⟨['\\'], ['{'], ['}'], ['['], ['='], [','], [']'], [Char.ofNat 96], [Char.ofNat 96]⟩ := by
  decide

/-- Cutting a template into tokens loses, repeats and moves nothing. -/
theorem flatMap_text_tokenize {d : Delimiters} {t : Text} {tokens : List Token}
    (h : tokenize d t = .ok tokens) : tokens.flatMap Token.text = t := by
  obtain ⟨hc, rfl⟩ := tokenize_eq_ok_iff.1 h
  rw [Token.flatMap_text_place, d.spelling_lex hc]

/-- Marks of several characters, one mark beginning with another, and groups in groups. -/
theorem flatMap_text_tokenize_overlapping :
    ∃ tokens,
      tokenize ⟨['a', 'a'], ['('], [')', ')'], ['(', '('], ['='], [','], [')'], ['!'], ['!']⟩
        "aaf((k=aag(x)),)(y\naaaa))".toList = .ok tokens ∧
      tokens.length = 15 ∧ tokens.flatMap Token.text = "aaf((k=aag(x)),)(y\naaaa))".toList := by
  have h : tokenize ⟨['a', 'a'], ['('], [')', ')'], ['(', '('], ['='], [','], [')'], ['!'], ['!']⟩
      "aaf((k=aag(x)),)(y\naaaa))".toList = .ok (Token.place .start
        [⟨.escape, ['a', 'a']⟩, ⟨.commandName, ['f']⟩, ⟨.paramStart, ['(', '(']⟩,
          ⟨.paramKey, ['k']⟩, ⟨.paramAssign, ['=']⟩, ⟨.escape, ['a', 'a']⟩, ⟨.commandName, ['g']⟩,
          ⟨.argStart, ['(']⟩, ⟨.raw, ['x']⟩, ⟨.argEnd, [')', ')']⟩, ⟨.paramSep, [',']⟩,
          ⟨.paramEnd, [')']⟩, ⟨.argStart, ['(']⟩, ⟨.raw, "y\naaaa".toList⟩,
          ⟨.argEnd, [')', ')']⟩]) := by
    cbv
  exact ⟨_, h, rfl, flatMap_text_tokenize h⟩

/-- Where the tokens stand that cutting makes, and where it stops. -/
theorem position_tokenize (d : Delimiters) (t : Text) :
    match tokenize d t with
    | .ok tokens => ∀ before token after, tokens = before ++ token :: after →
      (∃ rest, before.flatMap Token.text ++ token.text ++ rest = t) ∧
        token.position = Position.endOf (before.flatMap Token.text)
    | .error fault => ∃ before rest, before ++ rest = t ∧
      fault.position = Position.endOf before ∧ d.StopsBetween t before rest fault.cause := by
  cases hr : tokenize d t with
  | ok tokens =>
    intro before token after ht
    obtain ⟨hc, hplace⟩ := tokenize_eq_ok_iff.1 hr
    rw [ht] at hplace
    refine ⟨⟨after.flatMap Token.text, ?_⟩, ?_⟩
    · rw [← d.spelling_lex hc, ← Token.flatMap_text_place .start, hplace]
      simp
    · rw [← Position.start_after]
      exact Token.position_of_place_eq hplace
  | error fault =>
    obtain ⟨hk, hplace⟩ := tokenize_eq_error_iff.1 hr
    obtain ⟨rest, hrest, hstop⟩ := d.lex_stopsBetween hk
    exact ⟨_, rest, hrest, by rw [← hplace, Position.start_after], hstop⟩

end Stencil
