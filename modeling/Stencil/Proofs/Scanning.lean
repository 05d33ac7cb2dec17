import Stencil.Proofs.Passing

/-! The scanner that counts rows and columns makes the tokens that cutting makes, and stops where
cutting stops. -/
namespace Stencil

namespace Position

theorem shift_next (base p : Position) (c : Char) :
    base.shift (p.next c) = (base.shift p).next c := by
  by_cases hc : c = '\n'
  · simp [shift, next, hc, Nat.add_right_comm]
  · by_cases hrow : p.row = 0 <;> simp [shift, next, hc, hrow, Nat.add_right_comm]

theorem shift_after (base p : Position) (t : Text) :
    base.shift (p.after t) = (base.shift p).after t := by
  induction t generalizing p with
  | nil => rfl
  | cons c t ih => exact (ih (p.next c)).trans (congrArg (after · t) (base.shift_next p c))

theorem shift_start (base : Position) : base.shift start = base := by
  simp [shift, start]

theorem shift_start_after (base : Position) (t : Text) :
    base.shift (start.after t) = base.after t := by
  rw [shift_after, shift_start]

end Position

theorem Token.map_shift_place (base p : Position) (ls : List Lexeme) :
    (place p ls).map (fun t => { t with position := base.shift t.position }) =
      place (base.shift p) ls := by
  induction ls generalizing p with
  | nil => rfl
  | cons l ls ih => simp only [place, List.map_cons, ih, Position.shift_after]

theorem Lexeme.spelling_append (ls ls' : List Lexeme) :
    spelling (ls ++ ls') = spelling ls ++ spelling ls' := List.flatMap_append

theorem Piece.spelling_append (ps qs : List Piece) :
    spelling (ps ++ qs) = spelling ps ++ spelling qs := List.flatMap_append

theorem Delimiters.lexPieces_append (d : Delimiters) (ps qs : List Piece)
    (cause : Option LexCause) :
    d.lexPieces (ps ++ qs) cause = (d.lexPieces ps none).append (d.lexPieces qs cause) := by
  induction ps with
  | nil => rfl
  | cons p ps ih =>
    rw [List.cons_append, lexPieces_cons, lexPieces_cons, ih]
    unfold Lexing.append
    cases hp : (d.lexPiece p).cause <;> cases hps : (d.lexPieces ps none).cause <;> simp [hp, hps]

theorem Delimiters.pieces_of_segment {d : Delimiters} {t : Text} (h : t ≠ []) :
    d.pieces t = (d.segment t).andThen d.pieces := by
  rw [pieces, dif_neg h, Cut.andThen]
  split <;> rename_i hcause
  · rw [hcause]
  · cases hc : (d.segment t).cause with
    | none => exact absurd hc hcause
    | some k => rfl

theorem Delimiters.cause_paramValue (d : Delimiters) (t : Text) :
    (d.paramValue t).cause = none := by
  unfold paramValue
  split <;> rfl

theorem Delimiters.cause_param (d : Delimiters) (t : Text) : (d.param t).cause = none := by
  simp only [param, Cut.after, optional]
  split <;> rfl

namespace Scanner

variable {d : Delimiters} {before t : Text} {tokens : List Token} {steps : Nat}
  {scan : Text → Scanning (List Token)}

/-- What a scanner makes of a cut: it comes behind the pieces with their tokens, or fails where
their cutting stops. -/
def settle (d : Delimiters) (before : Text) (tokens : List Token) (c : Cut) : Scanning Scanner :=
  let found := d.lexPieces c.pieces c.cause
  let p := Position.start.after before
  match found.cause with
  | none =>
    pure (between (before ++ Piece.spelling c.pieces) c.rest
      (tokens ++ Token.place p found.lexemes))
  | some cause => throw ⟨cause, p.after (Lexeme.spelling found.lexemes)⟩

theorem settle_lexeme (d : Delimiters) (kind : TokenKind) (text rest : Text) :
    settle d before tokens ⟨[.lexeme kind text], rest, none⟩ =
      pure (between (before ++ text) rest
        (tokens ++ [⟨kind, text, Position.start.after before⟩])) := by
  simp [settle, Delimiters.lexPieces, Delimiters.lexPiece, Lexing.append, Piece.spelling,
    Piece.text, Token.place]

theorem settle_nil (rest : Text) :
    settle d before tokens ⟨[], rest, none⟩ = pure (between before rest tokens) := by
  simp [settle, Delimiters.lexPieces, Piece.spelling, Token.place]

theorem settle_stop (rest : Text) (cause : LexCause) :
    settle d before tokens ⟨[], rest, some cause⟩ = throw ⟨cause, Position.start.after before⟩ :=
  rfl

theorem settle_bind {c : Cut} {f : Text → Cut} {next : Scanner → Scanning Scanner}
    (h : c.cause = none → ∀ tokens,
      next (between (before ++ Piece.spelling c.pieces) c.rest tokens) =
        settle d (before ++ Piece.spelling c.pieces) tokens (f c.rest)) :
    (settle d before tokens c >>= next) = settle d before tokens (c.andThen f) := by
  obtain ⟨ps, rest, cause⟩ := c
  cases cause with
  | some cause =>
    cases hfound : (d.lexPieces ps (some cause)).cause with
    | none => simpa using (d.lexPieces_of_cause_eq_none hfound).1
    | some k =>
      simp only [settle, hfound, Cut.andThen]
      rfl
  | none =>
    simp only [settle, Cut.andThen, Cut.after, d.lexPieces_append]
    unfold Lexing.append
    cases hfound : (d.lexPieces ps none).cause with
    | some k =>
      simp only [hfound]
      rfl
    | none =>
      obtain ⟨-, hcuts, hlexemes⟩ := d.lexPieces_of_cause_eq_none hfound
      have hspelling : Lexeme.spelling (d.lexPieces ps none).lexemes = Piece.spelling ps := by
        rw [hlexemes, Delimiters.spelling_lexemes_of_cuts hcuts]
      refine (h rfl _).trans ?_
      simp only [settle]
      cases hnext : (d.lexPieces (f rest).pieces (f rest).cause).cause with
      | some k =>
        simp only [Lexeme.spelling_append, hspelling, Position.after_append]
      | none =>
        simp only [Token.place_append, hspelling, Position.after_append,
          Piece.spelling_append, List.append_assoc]

theorem settle_after_lexeme (kind : TokenKind) (text : Text) (c : Cut) :
    settle d before tokens (c.after [.lexeme kind text]) =
      settle d (before ++ text) (tokens ++ [⟨kind, text, Position.start.after before⟩]) c := by
  have hthen : (settle d before tokens ⟨[.lexeme kind text], [], none⟩ >>= fun s =>
      settle d (before ++ text) s.tokens c) =
        settle d before tokens (c.after [.lexeme kind text]) :=
    settle_bind (f := fun _ => c) fun _ _ => by simp [Piece.spelling, Piece.text]
  rw [settle_lexeme, pure_bind] at hthen
  exact hthen.symm

/-- A slice is scanned as it is cut, and then shifted to where it stands. -/
theorem nested_bind {slice rest : Text} {c : Cut} (next : Scanner → Scanning Scanner)
    (h : scan slice = some (tokenize d slice))
    (hnext : ∀ tokens, next (between (before ++ slice) rest tokens) =
      settle d (before ++ slice) tokens c) :
    (nested scan slice (Position.start.after before) >>= fun more =>
      next (between (before ++ slice) rest (tokens ++ more))) =
    settle d before tokens (c.after [.slice slice]) := by
  have hfound : d.lexPieces [.slice slice] none = (d.lex slice).append ⟨[], none⟩ := rfl
  have hslice : (nested scan slice (Position.start.after before) >>= fun more =>
      pure (between (before ++ slice) rest (tokens ++ more))) =
      settle d before tokens ⟨[.slice slice], rest, none⟩ := by
    simp only [nested, h, tokenize, settle, hfound, Lexing.append]
    cases hcause : (d.lex slice).cause with
    | none =>
      have htokens :=
        Token.map_shift_place (Position.start.after before) .start (d.lex slice).lexemes
      rw [Position.shift_start] at htokens
      simp only [Piece.spelling, Piece.text, List.flatMap_cons, List.flatMap_nil, List.append_nil,
        ← htokens]
      rfl
    | some cause =>
      have hfault := Position.shift_start_after (Position.start.after before)
        (Lexeme.spelling (d.lex slice).lexemes)
      simp only [hcause, ← hfault]
      rfl
  have hthen : settle d before tokens ⟨[.slice slice], rest, none⟩ >>= next =
      settle d before tokens (c.after [.slice slice]) :=
    settle_bind (f := fun _ => c) fun _ => by simpa [Piece.spelling, Piece.text] using hnext
  rw [← hslice, bind_assoc] at hthen
  simpa only [pure_bind] using hthen

/-- The slices that are shorter than `t` are scanned as they are cut. -/
def ScansBelow (d : Delimiters) (scan : Text → Scanning (List Token)) (t : Text) : Prop :=
  ∀ slice : Text, slice.length < t.length → scan slice = some (tokenize d slice)

theorem pushMark_between (d : Delimiters) {kind : TokenKind} {mark : Text}
    (h : mark.startsAt t = true) :
    (between before t tokens).pushMark kind mark =
      settle d before tokens ⟨[.lexeme kind mark], t.drop mark.length, none⟩ := by
  obtain ⟨-, r, rfl⟩ := Text.startsAt_iff.1 h
  rw [settle_lexeme, List.drop_left, pushMark, consume, isAt_between, if_pos h,
    advanceOver_between]
  rfl

theorem raw_between : (pure (raw d (between before t tokens)) : Scanning Scanner) =
    settle d before tokens ⟨[.lexeme .raw (d.cutRaw t).1], (d.cutRaw t).2, none⟩ := by
  have hcut : (d.cutRaw t).1 ++ (d.cutRaw t).2 = t := Text.scan_append _ _ _ _
  have hsince := since_between before (d.cutRaw t).1 (d.cutRaw t).2 tokens
  rw [hcut] at hsince
  rw [settle_lexeme, raw, passRaw_between, hsince, push_between, position_between]

theorem expression_between (h : d.evalStart.startsAt t = true) :
    expression d (between before t tokens) = settle d before tokens (d.expression t) := by
  obtain ⟨-, r, rfl⟩ := Text.startsAt_iff.1 h
  rw [expression, advanceOver_between, advanceUntil_between, Delimiters.expression, List.drop_left]
  have hcut := Text.cutWhere_append d.evalEnd.startsAt r
  have hstop := Text.cutWhere_stop d.evalEnd.startsAt r
  generalize Text.cutWhere d.evalEnd.startsAt r = cut at hcut hstop ⊢
  obtain ⟨inside, rest⟩ := cut
  subst hcut
  dsimp only at hstop ⊢
  rw [atEnd_between]
  obtain rfl | hclose := hstop
  · rw [if_pos (by simp), if_neg (by simp [Text.startsAt])]
    rfl
  · obtain ⟨hne, r, rfl⟩ := Text.startsAt_iff.1 hclose
    have hsince := since_between before (d.evalStart ++ inside ++ d.evalEnd) r tokens
    simp only [List.append_assoc] at hsince
    rw [if_neg (by simp [hne]), if_pos hclose, settle_lexeme, advanceOver_between, List.drop_left]
    simp only [List.append_assoc, hsince, push_between, position_between]

theorem argument_between (hscan : ScansBelow d scan t) (h : d.argStart.startsAt t = true) :
    argument d scan (between before t tokens) =
      match d.argument? t with
      | some (a, r) => settle d before tokens
          ⟨[.lexeme .argStart d.argStart, .slice a, .lexeme .argEnd d.argEnd], r, none⟩
      | none => throw ⟨.unbalanced, Position.start.after before⟩ := by
  obtain ⟨hne, r, rfl⟩ := Text.startsAt_iff.1 h
  have hpos := List.length_pos_iff.2 hne
  rw [argument, pushMark_between d h, settle_lexeme, pure_bind, List.drop_left,
    passArgument_between, Delimiters.argument?, if_pos h, List.drop_left]
  have hcut : (d.cutArgument r).1 ++ (d.cutArgument r).2 = r := Text.scan_append _ _ _ _
  generalize d.cutArgument r = cut at hcut ⊢
  obtain ⟨a, closing⟩ := cut
  subst hcut
  dsimp only
  by_cases hclose : d.argEnd.startsAt closing = true
  · have hslice := hscan a (by simp only [List.length_append]; omega)
    rw [if_pos hclose, if_pos hclose]
    simp only [since_between, position_between, extend_between]
    rw [nested_bind (·.pushMark .argEnd d.argEnd) hslice fun _ => pushMark_between d hclose]
    exact (settle_after_lexeme .argStart d.argStart _).symm
  · rw [if_neg hclose, if_neg hclose]
    rfl

theorem ScansBelow.mono {u : Text} (hscan : ScansBelow d scan t) (h : u.length ≤ t.length) :
    ScansBelow d scan u := fun slice hlt => hscan slice (hlt.trans_le h)

theorem arguments_between (hscan : ScansBelow d scan t) (hsteps : t.length < steps) :
    arguments d scan steps (between before t tokens) = settle d before tokens (d.arguments t) := by
  induction steps generalizing before t tokens with
  | zero => exact absurd hsteps (Nat.not_lt_zero _)
  | succ steps ih =>
    rw [arguments, isAt_between]
    by_cases hopen : d.argStart.startsAt t = true
    · rw [if_pos hopen, argument_between hscan hopen]
      cases harg : d.argument? t with
      | none =>
        rw [Delimiters.arguments_of_none harg, if_pos hopen, settle_stop]
        rfl
      | some cut =>
        obtain ⟨a, r⟩ := cut
        obtain ⟨happ, hne⟩ := d.eq_append_of_argument? harg
        have hlt : r.length < t.length := Text.length_lt_of_append happ (by simp [hne])
        rw [Delimiters.arguments_of_some harg]
        exact settle_bind (f := d.arguments) fun _ _ => ih (hscan.mono hlt.le)
          (hlt.trans_le (Nat.lt_succ_iff.1 hsteps))
    · rw [if_neg hopen, Delimiters.arguments_of_none (if_neg hopen), if_neg hopen, settle_nil]

theorem value_between (hscan : ScansBelow d scan t) :
    value d scan (between before t tokens) = settle d before tokens (d.paramValue t) := by
  rw [value, isAt_between, Delimiters.paramValue]
  by_cases hassign : d.paramAssign.startsAt t = true
  · obtain ⟨hne, r, rfl⟩ := Text.startsAt_iff.1 hassign
    have hpos := List.length_pos_iff.2 hne
    rw [if_pos hassign, if_pos hassign, pushMark_between d hassign, settle_lexeme, pure_bind,
      List.drop_left, passValue_between]
    have hcut : (d.cutValue r).1 ++ (d.cutValue r).2 = r := Text.scan_append _ _ _ _
    generalize d.cutValue r = cut at hcut ⊢
    obtain ⟨slice, rest⟩ := cut
    subst hcut
    have hslice := hscan slice (by simp only [List.length_append]; omega)
    simp only [since_between, position_between, extend_between]
    rw [nested_bind pure hslice fun _ => (settle_nil rest).symm]
    exact (settle_after_lexeme .paramAssign d.paramAssign _).symm
  · rw [if_neg hassign, if_neg hassign, settle_nil]

theorem optional_between {kind : TokenKind} {mark : Text} :
    (if (between before t tokens).isAt mark then (between before t tokens).pushMark kind mark
      else pure (between before t tokens)) =
    settle d before tokens (Delimiters.optional kind mark t) := by
  rw [isAt_between, Delimiters.optional]
  split
  · next hat => exact pushMark_between d hat
  · exact (settle_nil t).symm

theorem param_between (hscan : ScansBelow d scan t) :
    param d scan (between before t tokens) = settle d before tokens (d.param t) := by
  rw [param, advanceUntil_between, Delimiters.param, Delimiters.cutKey]
  have hcut := Text.cutWhere_append (fun r =>
    d.paramAssign.startsAt r || d.paramSep.startsAt r || d.paramEnd.startsAt r) t
  generalize Text.cutWhere _ t = cut at hcut ⊢
  obtain ⟨key, rest⟩ := cut
  subst hcut
  dsimp only
  simp only [since_between, position_between, push_between]
  rw [value_between (hscan.mono (by simp))]
  refine (settle_bind (f := Delimiters.optional .paramSep d.paramSep)
    fun _ _ => optional_between).trans ?_
  rw [← settle_after_lexeme, Cut.andThen, Delimiters.cause_paramValue]
  rfl

theorem params_between (hscan : ScansBelow d scan t) (hsteps : t.length < steps) :
    params d scan steps (between before t tokens) = settle d before tokens (d.params t) := by
  induction steps generalizing before t tokens with
  | zero => exact absurd hsteps (Nat.not_lt_zero _)
  | succ steps ih =>
    rw [params, isAt_between, atEnd_between]
    by_cases hnil : t = []
    · subst hnil
      rw [if_pos (by simp), Delimiters.params, dif_pos rfl, settle_stop, pushMark, consume,
        isAt_between, if_neg (by simp [Text.startsAt]), rest_between, position_between,
        List.take_nil]
      rfl
    cases hend : d.paramEnd.startsAt t with
    | true =>
      rw [if_pos (by simp), Delimiters.params, dif_neg hnil, dif_pos hend, pushMark_between d hend]
    | false =>
      have hlt := d.param_rest_lt hnil hend
      rw [if_neg (by simp [hnil]), Delimiters.params_of_entry hnil hend, param_between hscan]
      refine (settle_bind (f := d.params) fun _ _ => ih (hscan.mono hlt.le)
        (hlt.trans_le (Nat.lt_succ_iff.1 hsteps))).trans ?_
      rw [Cut.andThen, Delimiters.cause_param]

theorem paramList_between (hscan : ScansBelow d scan t) (hsteps : t.length < steps) :
    paramList d scan steps (between before t tokens) =
      settle d before tokens (d.paramList t) := by
  rw [paramList, isAt_between, Delimiters.paramList]
  split
  · next hopen =>
    obtain ⟨-, r, rfl⟩ := Text.startsAt_iff.1 hopen
    rw [pushMark_between d hopen, settle_lexeme, pure_bind, List.drop_left,
      params_between (hscan.mono (by simp)) (by simp at hsteps; omega), settle_after_lexeme]
  · exact (settle_nil t).symm

theorem command_between (hscan : ScansBelow d scan t) (hsteps : t.length ≤ steps)
    (h : d.atCommand t = true) :
    command d scan steps (between before t tokens) = settle d before tokens
      ((d.command (t.drop d.escape.length)).after [.lexeme .escape d.escape]) := by
  obtain ⟨hne, r, rfl⟩ := Text.startsAt_iff.1 (d.startsAt_of_atCommand h)
  rw [command, pushMark_between d (d.startsAt_of_atCommand h), settle_lexeme, pure_bind,
    List.drop_left, settle_after_lexeme, advanceUntil_between, Delimiters.command,
    Delimiters.cutName]
  have hcut := Text.cutWhere_append (fun r =>
    d.paramStart.startsAt r || d.argStart.startsAt r || Delimiters.atGap r) r
  generalize Text.cutWhere _ r = cut at hcut ⊢
  obtain ⟨name, rest⟩ := cut
  subst hcut
  have hlt : (rest : Text).length < (d.escape ++ (name ++ rest)).length :=
    Text.length_lt_of_append (by rw [List.append_assoc]) (by simp [hne])
  dsimp only at hsteps ⊢
  simp only [since_between, position_between, push_between]
  rw [settle_after_lexeme, paramList_between (hscan.mono hlt.le) (hlt.trans_le hsteps)]
  refine settle_bind fun _ _ => arguments_between (hscan.mono ?_) ?_
  · exact ((d.covers_paramList rest).rest_length_le).trans hlt.le
  · exact ((d.covers_paramList rest).rest_length_le).trans_lt (hlt.trans_le hsteps)

theorem map_tokens_settle (d : Delimiters) (t : Text) :
    Scanner.tokens <$> settle d [] [] (d.pieces t) = some (tokenize d t) := by
  rw [settle, tokenize, d.lex_eq]
  cases (d.lexPieces (d.pieces t).pieces (d.pieces t).cause).cause <;> rfl

theorem toEnd_between (hsteps : t.length < steps) :
    toEnd d steps (between before t tokens) = settle d before tokens (d.pieces t) := by
  induction steps generalizing before t tokens with
  | zero => exact absurd hsteps (Nat.not_lt_zero _)
  | succ steps ih =>
    have hscan : ScansBelow d (fun t => Scanner.tokens <$> toEnd d steps (start t)) t := by
      intro slice hlt
      change Scanner.tokens <$> toEnd d steps (between [] slice []) = _
      rw [ih (hlt.trans_le (Nat.lt_succ_iff.1 hsteps)), map_tokens_settle]
    rw [toEnd, atEnd_between, rest_between, isAt_between]
    by_cases hnil : t = []
    · rw [if_pos (by simp [hnil]), Delimiters.pieces, dif_pos hnil, settle_nil, hnil]
    rw [if_neg (by simp [hnil]), Delimiters.pieces_of_segment hnil]
    have hgoes : (settle d before tokens (d.segment t) >>= fun s => toEnd d steps s) =
        settle d before tokens ((d.segment t).andThen d.pieces) :=
      settle_bind fun hcause _ =>
        ih ((d.segment_rest_lt hnil hcause).trans_le (Nat.lt_succ_iff.1 hsteps))
    rw [← hgoes, Delimiters.segment]
    split
    · next hcommand => rw [command_between hscan (Nat.lt_succ_iff.1 hsteps) hcommand]
    · split
      · next heval => rw [expression_between heval]
      · rw [← raw_between]
        rfl

/-- Counting rows and columns in each slice, shifted once for each slice around it, gives the tokens
and faults that cutting gives. -/
theorem run_eq_tokenize (d : Delimiters) (t : Text) (extra : Nat) :
    run d (t.length + 1 + extra) t = some (tokenize d t) := by
  change Scanner.tokens <$> toEnd d (t.length + 1 + extra) (between [] t []) = _
  rw [toEnd_between (by omega), map_tokens_settle]

/-- Every token of the scanner stands where the text of those before it ends, and its fault at the
mark of what is never closed, or at the end of a slice. -/
theorem position_run (d : Delimiters) (t : Text) (extra : Nat) :
    run d (t.length + 1 + extra) t = some (tokenize d t) ∧
      match (run d (t.length + 1 + extra) t).run with
      | none => False
      | some (.ok tokens) => ∀ before token after, tokens = before ++ token :: after →
        (∃ rest, before.flatMap Token.text ++ token.text ++ rest = t) ∧
          token.position = Position.endOf (before.flatMap Token.text)
      | some (.error fault) => ∃ before rest, before ++ rest = t ∧
        fault.position = Position.endOf before ∧ d.StopsBetween t before rest fault.cause := by
  have hrun := run_eq_tokenize d t extra
  refine ⟨hrun, ?_⟩
  have hplace := position_tokenize d t
  rw [hrun]
  cases htokens : tokenize d t with
  | ok tokens =>
    rw [htokens] at hplace
    exact hplace
  | error fault =>
    rw [htokens] at hplace
    exact hplace

/-- The parameters of the inner command lack their end where the argument ends. -/
example : run Config.initial.delimiters 12 "a\n\\x\x7b\\y[k\x7dz".toList =
    some (.error ⟨.expected [']'] [], ⟨1, 7⟩⟩) := by
  rw [Config.delimiters_initial]
  cbv

end Scanner
end Stencil
