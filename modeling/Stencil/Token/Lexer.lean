import Stencil.Delimiters
import Stencil.Text.Scan
import Stencil.Token

/-! Cutting a template into tokens. A text is first cut at one level into pieces, in which an
argument or a parameter value is one slice; the slices are then cut in the same way. At both
stages the pieces found and the text left make up the text that was given. -/
namespace Stencil

/-- Why a text cannot be cut into tokens. -/
inductive LexCause where
  /-- A mark is missing; `found` is what stands in its place, empty at the end of the text. -/
  | expected (wanted found : Text)
  /-- An argument is never closed. -/
  | unbalanced
  /-- An expression is never closed. -/
  | unterminated
  deriving DecidableEq, Repr

def LexCause.message : LexCause → String
  | .expected wanted [] => s!"expected '{wanted.str}', got end of input"
  | .expected wanted found => s!"expected '{wanted.str}', got '{found.str}'"
  | .unbalanced => "unbalanced braces in command arguments"
  | .unterminated => "unterminated inline expression"

/-- What cutting at one level finds: a lexeme, or a slice that is still to be cut. -/
inductive Piece where
  | lexeme (kind : TokenKind) (text : Text)
  | slice (text : Text)
  deriving DecidableEq, Repr

def Piece.text : Piece → Text
  | .lexeme _ t => t
  | .slice t => t

/-- The text that a row of pieces was cut from. -/
def Piece.spelling (ps : List Piece) : Text := ps.flatMap Piece.text

/-- Pieces, the text left after them, and the cause that stopped the cutting there, if one did. -/
structure Cut where
  pieces : List Piece
  rest : Text
  cause : Option LexCause
  deriving DecidableEq, Repr

/-- Lexemes, and the cause that stopped the cutting after them, if one did. -/
structure Lexing where
  lexemes : List Lexeme
  cause : Option LexCause
  deriving DecidableEq, Repr

/-- Both lexings in turn; the second counts where nothing stopped the first. -/
def Lexing.append (a b : Lexing) : Lexing :=
  match a.cause with
  | some _ => a
  | none => ⟨a.lexemes ++ b.lexemes, b.cause⟩

namespace Cut

/-- The cut with `ps` in front of its pieces. -/
def after (ps : List Piece) (c : Cut) : Cut := ⟨ps ++ c.pieces, c.rest, c.cause⟩

/-- Nothing of `t` is lost, repeated or moved. -/
def Covers (c : Cut) (t : Text) : Prop := Piece.spelling c.pieces ++ c.rest = t

theorem Covers.after (ps : List Piece) {c : Cut} {t : Text} (h : c.Covers t) :
    (c.after ps).Covers (Piece.spelling ps ++ t) := by
  simp only [Covers, Piece.spelling, Cut.after, List.flatMap_append, List.append_assoc] at h ⊢
  rw [h]

/-- Goes on with `f` unless something stopped the cutting. -/
def andThen (c : Cut) (f : Text → Cut) : Cut :=
  match c.cause with
  | some _ => c
  | none => (f c.rest).after c.pieces

theorem Covers.andThen {c : Cut} {f : Text → Cut} {t : Text} (h : c.Covers t)
    (hf : (f c.rest).Covers c.rest) : (c.andThen f).Covers t := by
  unfold Cut.andThen
  split
  · exact h
  · have := hf.after (c.pieces)
    rwa [show Piece.spelling c.pieces ++ c.rest = t from h] at this

theorem Covers.rest_length_le {c : Cut} {t : Text} (h : c.Covers t) :
    c.rest.length ≤ t.length := Text.length_le_of_append h

theorem Covers.piece_length_le {c : Cut} {t : Text} {p : Piece} (h : c.Covers t)
    (hp : p ∈ c.pieces) : p.text.length ≤ t.length := by
  have : p.text.length ≤ (Piece.spelling c.pieces).length := by
    obtain ⟨a, b, hab⟩ := List.append_of_mem hp
    simp only [hab, Piece.spelling, List.flatMap_append, List.flatMap_cons, List.length_append]
    omega
  have : (Piece.spelling c.pieces).length ≤ t.length := by
    have := congrArg List.length h
    simp only [List.length_append] at this
    omega
  omega

end Cut

namespace Delimiters

variable (d : Delimiters)

/-- Cuts after literal text: before a command or an expression, or at the end. A doubled escape is
passed as a whole. -/
def cutRaw (t : Text) : Text × Text :=
  t.scan (fun _ r =>
    if d.atCommand r || d.evalStart.startsAt r then none
    else if d.atDoubled r then some (2 * d.escape.length - 1, ())
    else some (0, ())) 0 ()

/-- Cuts after a command name. -/
def cutName (t : Text) : Text × Text :=
  t.cutWhere fun r => d.paramStart.startsAt r || d.argStart.startsAt r || atGap r

/-- Cuts after a parameter key. -/
def cutKey (t : Text) : Text × Text :=
  t.cutWhere fun r => d.paramAssign.startsAt r || d.paramSep.startsAt r || d.paramEnd.startsAt r

/-- Cuts after a parameter value: before a separator or an end outside all arguments, the state
being the number of arguments open. -/
def cutValue (t : Text) : Text × Text :=
  t.scan (fun depth r =>
    if d.argStart.startsAt r then some (d.argStart.length - 1, depth + 1)
    else match depth with
      | 0 => if d.paramSep.startsAt r || d.paramEnd.startsAt r then none else some (0, 0)
      | n + 1 =>
        if d.argEnd.startsAt r then some (d.argEnd.length - 1, n) else some (0, n + 1)) 0 0

/-- Cuts before the end of an argument, the state being the number of arguments open inside it. An
escape is passed as a whole. -/
def cutArgument (t : Text) : Text × Text :=
  t.scan (fun depth r =>
    if d.argStart.startsAt r then some (d.argStart.length - 1, depth + 1)
    else if d.argEnd.startsAt r then
      match depth with
      | 0 => none
      | n + 1 => some (d.argEnd.length - 1, n)
    else if d.escape.startsAt r then some (d.escape.length - 1, depth)
    else some (0, depth)) 0 0

/-- The value of a parameter, where one is assigned. -/
def paramValue (t : Text) : Cut :=
  if d.paramAssign.startsAt t then
    let (value, rest) := d.cutValue (t.drop d.paramAssign.length)
    ⟨[.lexeme .paramAssign d.paramAssign, .slice value], rest, none⟩
  else ⟨[], t, none⟩

/-- A mark, where it stands here. -/
def optional (kind : TokenKind) (mark t : Text) : Cut :=
  if mark.startsAt t then ⟨[.lexeme kind mark], t.drop mark.length, none⟩ else ⟨[], t, none⟩

/-- One parameter: its key, its value if it has one, and the separator after it. -/
def param (t : Text) : Cut :=
  let (key, afterKey) := d.cutKey t
  let value := d.paramValue afterKey
  (optional .paramSep d.paramSep value.rest).after (.lexeme .paramKey key :: value.pieces)

theorem covers_paramValue (t : Text) : (d.paramValue t).Covers t := by
  unfold paramValue
  split
  · next h =>
    have := Text.append_drop_of_startsAt h
    simpa [Cut.Covers, Piece.spelling, Piece.text, cutValue]
  · simp [Cut.Covers, Piece.spelling]

theorem covers_optional (kind : TokenKind) (mark t : Text) : (optional kind mark t).Covers t := by
  unfold optional
  split
  · next h => simpa [Cut.Covers, Piece.spelling, Piece.text] using Text.append_drop_of_startsAt h
  · simp [Cut.Covers, Piece.spelling]

theorem covers_param (t : Text) : (d.param t).Covers t := by
  have hk : (d.cutKey t).1 ++ (d.cutKey t).2 = t := Text.cutWhere_append _ _
  have hv := d.covers_paramValue (d.cutKey t).2
  have ho := (covers_optional .paramSep d.paramSep (d.paramValue (d.cutKey t).2).rest).after
    (.lexeme .paramKey (d.cutKey t).1 :: (d.paramValue (d.cutKey t).2).pieces)
  simp only [Cut.Covers, Piece.spelling] at hv
  rw [show Piece.spelling (.lexeme .paramKey (d.cutKey t).1 :: (d.paramValue (d.cutKey t).2).pieces)
    ++ (d.paramValue (d.cutKey t).2).rest = t by simp [Piece.spelling, Piece.text, hv, hk]] at ho
  exact ho

theorem optional_rest_lt {kind : TokenKind} {mark t : Text} (h : mark.startsAt t = true) :
    (optional kind mark t).rest.length < t.length := by
  have := Text.length_pos_of_startsAt h
  have hl := congrArg List.length (Text.append_drop_of_startsAt h)
  simp only [List.length_append] at hl
  simp only [optional, h, if_true]
  omega

theorem paramValue_rest_lt {t : Text} (h : d.paramAssign.startsAt t = true) :
    (d.paramValue t).rest.length < t.length := by
  have := Text.length_pos_of_startsAt h
  have hl := congrArg List.length (Text.append_drop_of_startsAt h)
  have hc : (d.cutValue (t.drop d.paramAssign.length)).2.length ≤ _ :=
    Text.length_le_of_append (Text.scan_append _ _ _ _)
  simp only [List.length_append] at hl
  simp only [paramValue, h, if_true]
  omega

/-- A parameter takes something, unless the parameters end here. -/
theorem param_rest_lt {t : Text} (h : t ≠ []) (he : d.paramEnd.startsAt t = false) :
    (d.param t).rest.length < t.length := by
  have hk : (d.cutKey t).1 ++ (d.cutKey t).2 = t := Text.cutWhere_append _ _
  have hv := (d.covers_paramValue (d.cutKey t).2).rest_length_le
  have hs := (covers_optional .paramSep d.paramSep
    (d.paramValue (d.cutKey t).2).rest).rest_length_le
  have hkl := Text.length_le_of_append hk
  simp only [param, Cut.after]
  by_cases hnil : (d.cutKey t).1 = []
  · have hstop := Text.stop_of_cutWhere_eq_nil h hnil
    have ht : (d.cutKey t).2 = t := by simpa [hnil] using hk
    rw [ht] at hs hv ⊢
    simp only [he, Bool.or_false, Bool.or_eq_true] at hstop
    by_cases ha : d.paramAssign.startsAt t = true
    · have := d.paramValue_rest_lt ha
      omega
    · have hsep := hstop.resolve_left ha
      have hrest : (d.paramValue t).rest = t := by simp [paramValue, ha]
      rw [hrest] at hs ⊢
      exact optional_rest_lt hsep
  · have := Text.length_lt_of_append hk hnil
    omega

/-- Parameters up to the end of their list, whose start is already passed. -/
def params (t : Text) : Cut :=
  if _ : t = [] then ⟨[], [], some (.expected d.paramEnd [])⟩
  else if _ : d.paramEnd.startsAt t = true then
    ⟨[.lexeme .paramEnd d.paramEnd], t.drop d.paramEnd.length, none⟩
  else
    let p := d.param t
    (params p.rest).after p.pieces
termination_by t.length
decreasing_by exact d.param_rest_lt ‹_› (Bool.eq_false_iff.2 ‹_›)

theorem covers_params (t : Text) : (d.params t).Covers t := by
  fun_induction params d t with
  | case1 => rfl
  | case2 t _ he =>
    simpa [Cut.Covers, Piece.spelling, Piece.text] using Text.append_drop_of_startsAt he
  | case3 t _ _ p ih =>
    have := ih.after (p.pieces)
    rwa [show Piece.spelling p.pieces ++ p.rest = t from d.covers_param t] at this

/-- Parameters, where a list of them follows here. -/
def paramList (t : Text) : Cut :=
  if d.paramStart.startsAt t then
    (d.params (t.drop d.paramStart.length)).after [.lexeme .paramStart d.paramStart]
  else ⟨[], t, none⟩

/-- The argument that begins here and the text after it, if it begins here and is closed. -/
def argument? (t : Text) : Option (Text × Text) :=
  if d.argStart.startsAt t then
    let cut := d.cutArgument (t.drop d.argStart.length)
    if d.argEnd.startsAt cut.2 then some (cut.1, cut.2.drop d.argEnd.length) else none
  else none

theorem eq_append_of_argument? {t a r : Text} (h : d.argument? t = some (a, r)) :
    d.argStart ++ a ++ d.argEnd ++ r = t ∧ d.argStart ≠ [] := by
  unfold argument? at h
  split at h
  · next hs =>
    have hcut : (d.cutArgument (t.drop d.argStart.length)).1 ++
        (d.cutArgument (t.drop d.argStart.length)).2 = t.drop d.argStart.length :=
      Text.scan_append _ _ _ _
    simp only [Option.ite_none_right_eq_some, Option.some.injEq, Prod.mk.injEq] at h
    obtain ⟨he, rfl, rfl⟩ := h
    refine ⟨?_, (Text.startsAt_iff.1 hs).1⟩
    rw [List.append_assoc, Text.append_drop_of_startsAt he, List.append_assoc, hcut,
      Text.append_drop_of_startsAt hs]
  · simp at h

/-- Arguments, as many as follow here. -/
def arguments (t : Text) : Cut :=
  match _ : d.argument? t with
  | some (a, r) =>
    (arguments r).after [.lexeme .argStart d.argStart, .slice a, .lexeme .argEnd d.argEnd]
  | none => ⟨[], t, if d.argStart.startsAt t then some .unbalanced else none⟩
termination_by t.length
decreasing_by
  obtain ⟨hl, hs⟩ := d.eq_append_of_argument? ‹_›
  exact Text.length_lt_of_append hl (by simp [hs])

theorem covers_arguments (t : Text) : (d.arguments t).Covers t := by
  fun_induction arguments d t with
  | case1 t a r h ih =>
    have := ih.after ([.lexeme .argStart d.argStart, .slice a, .lexeme .argEnd d.argEnd])
    rwa [show Piece.spelling [.lexeme .argStart d.argStart, .slice a, .lexeme .argEnd d.argEnd]
      ++ r = t by
        simpa [Piece.spelling, Piece.text] using (d.eq_append_of_argument? h).1] at this
  | case2 => rfl

/-- A command after its escape: the name, the parameters and the arguments. -/
def command (t : Text) : Cut :=
  let (name, rest) := d.cutName t
  ((d.paramList rest).andThen d.arguments).after [.lexeme .commandName name]

theorem covers_paramList (t : Text) : (d.paramList t).Covers t := by
  unfold paramList
  split
  · next h =>
    have := (d.covers_params (t.drop d.paramStart.length)).after
      [.lexeme .paramStart d.paramStart]
    rwa [show Piece.spelling [.lexeme .paramStart d.paramStart] ++ t.drop d.paramStart.length = t by
      simpa [Piece.spelling, Piece.text] using Text.append_drop_of_startsAt h] at this
  · rfl

theorem covers_command (t : Text) : (d.command t).Covers t := by
  have hn : (d.cutName t).1 ++ (d.cutName t).2 = t := Text.cutWhere_append _ _
  have := ((d.covers_paramList (d.cutName t).2).andThen (d.covers_arguments _)).after
    [.lexeme .commandName (d.cutName t).1]
  rwa [show Piece.spelling [.lexeme .commandName (d.cutName t).1] ++ (d.cutName t).2 = t by
    simpa [Piece.spelling, Piece.text] using hn] at this

/-- An expression with both its marks. -/
def expression (t : Text) : Cut :=
  let cut := Text.cutWhere d.evalEnd.startsAt (t.drop d.evalStart.length)
  if d.evalEnd.startsAt cut.2 then
    ⟨[.lexeme .expression (d.evalStart ++ cut.1 ++ d.evalEnd)], cut.2.drop d.evalEnd.length, none⟩
  else ⟨[], t, some .unterminated⟩

theorem covers_expression {t : Text} (h : d.evalStart.startsAt t = true) :
    (d.expression t).Covers t := by
  simp only [expression]
  split
  · next he =>
    have hcut := Text.cutWhere_append d.evalEnd.startsAt (t.drop d.evalStart.length)
    simp only [Cut.Covers, Piece.spelling, Piece.text, List.flatMap_cons, List.flatMap_nil,
      List.append_nil]
    rw [List.append_assoc, Text.append_drop_of_startsAt he, List.append_assoc, hcut,
      Text.append_drop_of_startsAt h]
  · rfl

/-- A command, an expression or a run of literal text, whichever stands at the front. -/
def segment (t : Text) : Cut :=
  if d.atCommand t then
    (d.command (t.drop d.escape.length)).after [.lexeme .escape d.escape]
  else if d.evalStart.startsAt t then d.expression t
  else
    let cut := d.cutRaw t
    ⟨[.lexeme .raw cut.1], cut.2, none⟩

theorem startsAt_of_atCommand {t : Text} (h : d.atCommand t = true) :
    d.escape.startsAt t = true := by
  simp only [atCommand, Bool.and_eq_true] at h
  exact h.1

theorem covers_segment (t : Text) : (d.segment t).Covers t := by
  unfold segment
  split
  · next h =>
    have := (d.covers_command (t.drop d.escape.length)).after ([.lexeme .escape d.escape])
    rwa [show Piece.spelling [.lexeme .escape d.escape] ++ t.drop d.escape.length = t by
      simpa [Piece.spelling, Piece.text] using
        Text.append_drop_of_startsAt (d.startsAt_of_atCommand h)] at this
  · split
    · next h => exact d.covers_expression h
    · have : (d.cutRaw t).1 ++ (d.cutRaw t).2 = t := Text.scan_append _ _ _ _
      simpa [Cut.Covers, Piece.spelling, Piece.text] using this

/-- A segment takes something, unless something stops the cutting. -/
theorem segment_rest_lt {t : Text} (h : t ≠ []) (hc : (d.segment t).cause = none) :
    (d.segment t).rest.length < t.length := by
  unfold segment at hc ⊢
  split
  · next hcmd =>
    have hs := d.startsAt_of_atCommand hcmd
    exact Nat.lt_of_le_of_lt (d.covers_command _).rest_length_le
      (Text.length_lt_of_append (Text.append_drop_of_startsAt hs) (Text.startsAt_iff.1 hs).1)
  · next hcmd =>
    split
    · next he =>
      simp only [hcmd, he, if_true, Bool.false_eq_true, if_false, expression] at hc ⊢
      split at hc
      · next hend =>
        simp only [hend, if_true, List.length_drop]
        have := (Text.startsAt_iff.1 hend)
        have := Text.length_pos_of_startsAt he
        have := congrArg List.length (Text.append_drop_of_startsAt he)
        have := Text.length_le_of_append
          (Text.cutWhere_append d.evalEnd.startsAt (t.drop d.evalStart.length))
        simp only [List.length_append, List.length_drop] at *
        omega
      · simp at hc
    · next he =>
      match t, h with
      | c :: r, _ =>
        refine Text.length_lt_of_append (Text.scan_append _ _ _ _) (Text.scan_fst_ne_nil ?_)
        simp only [hcmd, he, Bool.or_self, Bool.false_eq_true, if_false]
        split <;> simp

theorem slice_length_lt {t s : Text} (h : .slice s ∈ (d.segment t).pieces) :
    s.length < t.length := by
  unfold segment at h
  split at h
  · next hc =>
    have hs := d.startsAt_of_atCommand hc
    have hm : .slice s ∈ (d.command (t.drop d.escape.length)).pieces := by
      simpa [Cut.after] using h
    have hle := (d.covers_command _).piece_length_le hm
    have hlt := Text.length_lt_of_append (Text.append_drop_of_startsAt hs)
      (Text.startsAt_iff.1 hs).1
    exact Nat.lt_of_le_of_lt hle hlt
  · split at h
    · unfold expression at h
      simp only at h
      split at h <;> simp at h
    · simp at h

/-- The pieces of a text at one level. -/
def pieces (t : Text) : Cut :=
  if _ : t = [] then ⟨[], [], none⟩
  else if _ : (d.segment t).cause = none then
    (pieces (d.segment t).rest).after (d.segment t).pieces
  else d.segment t
termination_by t.length
decreasing_by exact d.segment_rest_lt ‹_› ‹_›

theorem covers_pieces (t : Text) : (d.pieces t).Covers t := by
  fun_induction pieces d t with
  | case1 => rfl
  | case2 t _ _ ih =>
    have := ih.after ((d.segment t).pieces)
    rwa [show Piece.spelling (d.segment t).pieces ++ (d.segment t).rest = t from
      d.covers_segment t] at this
  | case3 t => exact d.covers_segment t

theorem slice_length_lt_of_pieces {t s : Text} (h : .slice s ∈ (d.pieces t).pieces) :
    s.length < t.length := by
  fun_induction pieces d t with
  | case1 => simp at h
  | case2 t hne hc ih =>
    simp only [Cut.after, List.mem_append] at h
    rcases h with h | h
    · exact d.slice_length_lt h
    · exact Nat.lt_trans (ih h) (d.segment_rest_lt hne hc)
  | case3 t => exact d.slice_length_lt h

/-- Cuts a text at all levels. What stops the cutting in a slice stops the whole. -/
def lex (t : Text) : Lexing :=
  let found := (d.pieces t).pieces.attach.map fun
    | ⟨.lexeme kind text, _⟩ => ⟨[⟨kind, text⟩], none⟩
    | ⟨.slice text, _⟩ => lex text
  found.foldr Lexing.append ⟨[], (d.pieces t).cause⟩
termination_by t.length
decreasing_by exact d.slice_length_lt_of_pieces ‹_›

end Delimiters

/-- The tokens of a template. A fault stands where the text of the lexemes before it ends. -/
def tokenize (d : Delimiters) (t : Text) : Except (Fault LexCause) (List Token) :=
  let found := d.lex t
  match found.cause with
  | none => .ok (Token.place .start found.lexemes)
  | some cause => .error ⟨cause, Position.start.after (Lexeme.spelling found.lexemes)⟩

end Stencil
