import Stencil.Proofs.Balance
import Stencil.Proofs.Provenance

/-! What the leaves of a program hold of the template: literal text a slice of it, with doubled
escapes undone, and expressions and comments what stands between two marks or after a name, as it
is. That a group ends where the cutting ended it needs that what is cut is balanced. -/
namespace Stencil

namespace Text

theorem not_stop_of_cutWhere {stop : Text → Bool} {t u w : Text} (h : (cutWhere stop t).1 = u ++ w)
    (hw : w ≠ []) : stop (w ++ (cutWhere stop t).2) = false := by
  induction t generalizing u with
  | nil => exact absurd (List.append_eq_nil_iff.1 h.symm).2 hw
  | cons c r ih =>
    unfold cutWhere at h ⊢
    split at h
    · exact absurd (List.append_eq_nil_iff.1 h.symm).2 hw
    · next hstop =>
      rw [if_neg hstop]
      cases u with
      | nil =>
        have hall : w ++ (cutWhere stop r).2 = c :: r := by
          rw [← show c :: (cutWhere stop r).1 = w from h, List.cons_append, cutWhere_append]
        simpa [hall] using hstop
      | cons c' u => exact ih (List.cons.inj h).2

end Text

namespace Delimiters

variable (d : Delimiters)

/-- What a token of a kind says. -/
def Spells : TokenKind → Text → Prop
  | .escape, t => t = d.escape
  | .argStart, t => t = d.argStart
  | .argEnd, t => t = d.argEnd
  | .paramStart, t => t = d.paramStart
  | .paramEnd, t => t = d.paramEnd
  | .paramSep, t => t = d.paramSep
  | .paramAssign, t => t = d.paramAssign
  | .expression, t => ∃ source, t = d.evalStart ++ (source ++ d.evalEnd) ∧
    ∀ u v, source ++ d.evalEnd = u ++ (d.evalEnd ++ v) → v = []
  | .raw, _ | .commandName, _ | .paramKey, _ => True

/-- All pieces that are not cut any more say what their kind does. -/
def Spelled (ps : List Piece) : Prop := ∀ kind t, .lexeme kind t ∈ ps → d.Spells kind t

section Spelling

variable {d : Delimiters} {ps qs : List Piece} {kind : TokenKind} {t : Text}

@[simp] theorem spelled_nil : d.Spelled [] := by simp [Spelled]

@[simp] theorem spelled_append : d.Spelled (ps ++ qs) ↔ d.Spelled ps ∧ d.Spelled qs := by
  simp [Spelled, or_imp, forall_and]

@[simp] theorem spelled_lexeme :
    d.Spelled (.lexeme kind t :: ps) ↔ d.Spells kind t ∧ d.Spelled ps := by
  simp [Spelled, or_imp, forall_and]

@[simp] theorem spelled_slice {s : Text} : d.Spelled (.slice s :: ps) ↔ d.Spelled ps := by
  simp [Spelled]

theorem spelled_optional {mark : Text} (h : d.Spells kind mark) (t : Text) :
    d.Spelled (optional kind mark t).pieces := by
  unfold optional
  split <;> simp [h]

theorem spelled_param (t : Text) : d.Spelled (d.param t).pieces := by
  have hvalue : ∀ t, d.Spelled (d.paramValue t).pieces := by
    intro t
    unfold paramValue
    split <;> simp [Spells]
  have hsep : ∀ t, d.Spelled (optional .paramSep d.paramSep t).pieces := spelled_optional rfl
  simp [param, Cut.after, hvalue, hsep, Spells]

theorem spelled_params (t : Text) : d.Spelled (d.params t).pieces := by
  fun_induction params d t with
  | case1 => simp
  | case2 t _ _ => simp [Spells]
  | case3 t _ _ p ih =>
    have hparam : d.Spelled p.pieces := spelled_param t
    simp [Cut.after, ih, hparam]

theorem spelled_arguments (t : Text) : d.Spelled (d.arguments t).pieces := by
  fun_induction arguments d t with
  | case1 t a r h ih => simp [Cut.after, ih, Spells]
  | case2 t h => simp

theorem spelled_command (t : Text) : d.Spelled (d.command t).pieces := by
  have hlist : ∀ t, d.Spelled (d.paramList t).pieces := by
    intro t
    unfold paramList
    split <;> simp [Cut.after, spelled_params, Spells]
  simp only [command, Cut.after, Cut.andThen]
  split <;> simp [hlist, spelled_arguments, Spells]

theorem spells_expression {rest : Text}
    (h : d.evalEnd.startsAt (Text.cutWhere d.evalEnd.startsAt rest).2 = true) :
    d.Spells .expression
      (d.evalStart ++ (Text.cutWhere d.evalEnd.startsAt rest).1 ++ d.evalEnd) := by
  refine ⟨_, List.append_assoc _ _ _, fun u v heq => ?_⟩
  obtain ⟨hne, after, hafter⟩ := Text.startsAt_iff.1 h
  obtain ⟨w, -, hend⟩ | ⟨w, hsource, hend⟩ := List.append_eq_append_iff.1 heq
  · have hlength := congrArg List.length hend
    simp only [List.length_append] at hlength
    exact List.eq_nil_of_length_eq_zero (by omega)
  · by_contra hv
    have hw : w ≠ [] := by
      rintro rfl
      exact hv (List.append_right_eq_self.1 hend)
    have hstops : d.evalEnd.startsAt
        (w ++ (Text.cutWhere d.evalEnd.startsAt rest).2) = true := by
      refine Text.startsAt_iff.2 ⟨hne, v ++ after, ?_⟩
      rw [← hafter, ← List.append_assoc, hend, List.append_assoc]
    rw [Text.not_stop_of_cutWhere hsource hw] at hstops
    cases hstops

theorem spelled_segment (t : Text) : d.Spelled (d.segment t).pieces := by
  unfold segment
  split
  · simp [Cut.after, spelled_command, Spells]
  · split
    · simp only [expression]
      split
      · next h => simp [-List.append_assoc, spells_expression h]
      · simp
    · simp [Spells]

theorem spelled_pieces (t : Text) : d.Spelled (d.pieces t).pieces := by
  fun_induction pieces d t with
  | case1 => simp
  | case2 t _ _ ih => simp [Cut.after, ih, spelled_segment]
  | case3 t _ _ => exact spelled_segment t

/-- All tokens of a text say what their kind does. -/
theorem spells_of_mem_lex (h : (d.lex t).cause = none) :
    ∀ l ∈ (d.lex t).lexemes, d.Spells l.kind l.text := by
  induction t using d.lex_induction with
  | h t ih =>
    obtain ⟨-, hcuts⟩ := cause_lex_eq_none_iff.1 h
    intro l hl
    rw [lexemes_lex h] at hl
    obtain ⟨p, hp, hl⟩ := List.mem_flatMap.1 hl
    cases p with
    | lexeme kind text =>
      obtain rfl := List.mem_singleton.1 hl
      exact spelled_pieces t kind text hp
    | slice s => exact ih s hp (hcuts s hp) l hl

end Spelling

/-- An argument among the pieces of a cut is the one that begins there in the text. -/
def Grouped (c : Cut) : Prop := ∀ ps x qs, c.pieces = ps ++ .lexeme .argStart x :: qs →
  ∃ a qs', qs = .slice a :: .lexeme .argEnd d.argEnd :: qs' ∧
    d.argument? (d.argStart ++ (a ++ (d.argEnd ++ (Piece.spelling qs' ++ c.rest)))) =
      some (a, Piece.spelling qs' ++ c.rest)

section Grouping

variable {d : Delimiters} {c c' : Cut}

theorem grouped_of_not_mem (h : ∀ x, .lexeme .argStart x ∉ c.pieces) : d.Grouped c :=
  fun _ x _ hpieces => absurd (hpieces ▸ List.mem_append_right _ List.mem_cons_self) (h x)

theorem Grouped.after (h : d.Grouped c) (h' : d.Grouped c') (hcovers : c'.Covers c.rest) :
    d.Grouped (c'.after c.pieces) := by
  intro ps x qs hpieces
  obtain ⟨more, -, hmore⟩ | ⟨more, hfirst, rfl⟩ := append_eq_append_cons hpieces
  · exact h' more x qs hmore
  · obtain ⟨a, qs', rfl, ha⟩ := h ps x more hfirst
    refine ⟨a, qs' ++ c'.pieces, rfl, ?_⟩
    have hspelling : Piece.spelling (qs' ++ c'.pieces) ++ c'.rest =
        Piece.spelling qs' ++ c.rest := by
      rw [← show Piece.spelling c'.pieces ++ c'.rest = c.rest from hcovers]
      simp [Piece.spelling]
    rw [show (c'.after c.pieces).rest = c'.rest from rfl, hspelling]
    exact ha

theorem Grouped.andThen {f : Text → Cut} (h : d.Grouped c) (hf : d.Grouped (f c.rest))
    (hcovers : (f c.rest).Covers c.rest) : d.Grouped (c.andThen f) := by
  unfold Cut.andThen
  split
  · exact h
  · exact h.after hf hcovers

theorem Grouped.after_of_not_mem {t : Text} {ps : List Piece} (h : d.Grouped c) (hc : c.Covers t)
    (hps : ∀ x, .lexeme .argStart x ∉ ps) : d.Grouped (c.after ps) :=
  Grouped.after (c := ⟨ps, t, none⟩) (grouped_of_not_mem hps) h hc

theorem grouped_paramList (t : Text) : d.Grouped (d.paramList t) := by
  have hoptional : ∀ (t : Text) x,
      .lexeme .argStart x ∉ (optional .paramSep d.paramSep t).pieces := by
    intro t x
    unfold optional
    split <;> simp
  have hvalue : ∀ (t : Text) x, .lexeme .argStart x ∉ (d.paramValue t).pieces := by
    intro t x
    unfold paramValue
    split <;> simp
  have hparams : ∀ (t : Text) x, .lexeme .argStart x ∉ (d.params t).pieces := by
    intro t x
    fun_induction params d t with
    | case1 => simp
    | case2 t _ _ => simp
    | case3 t _ _ p ih =>
      have hparam : .lexeme .argStart x ∉ p.pieces := by
        simp [p, param, Cut.after, hoptional, hvalue]
      simp [Cut.after, ih, hparam]
  refine grouped_of_not_mem fun x => ?_
  unfold paramList
  split <;> simp [Cut.after, hparams]

theorem grouped_arguments (t : Text) : d.Grouped (d.arguments t) := by
  fun_induction arguments d t with
  | case1 t a r h ih =>
    refine Grouped.after
      (c := ⟨[.lexeme .argStart d.argStart, .slice a, .lexeme .argEnd d.argEnd], r, none⟩) ?_ ih
      (d.covers_arguments r)
    intro ps x qs hpieces
    have hargument : d.argument? (d.argStart ++ (a ++ (d.argEnd ++ r))) = some (a, r) := by
      have heq := (d.eq_append_of_argument? h).1
      simp only [List.append_assoc] at heq
      rw [heq, h]
    obtain - | ⟨p, ps⟩ := ps
    · obtain ⟨-, rfl⟩ := List.cons.inj hpieces
      exact ⟨a, [], rfl, hargument⟩
    · have hmem : Piece.lexeme .argStart x ∈ [Piece.slice a, .lexeme .argEnd d.argEnd] := by
        rw [(List.cons.inj hpieces).2]
        simp
      simp at hmem
  | case2 t h => exact grouped_of_not_mem (by simp)

theorem grouped_segment (t : Text) : d.Grouped (d.segment t) := by
  have hcommand : ∀ t, d.Grouped (d.command t) := fun t =>
    ((grouped_paramList _).andThen (grouped_arguments _) (d.covers_arguments _)).after_of_not_mem
      ((d.covers_paramList _).andThen (d.covers_arguments _)) (by simp)
  unfold segment
  split
  · exact (hcommand _).after_of_not_mem (d.covers_command _) (by simp)
  · split
    · refine grouped_of_not_mem fun x => ?_
      simp only [expression]
      split <;> simp
    · exact grouped_of_not_mem (by simp)

theorem grouped_pieces (t : Text) : d.Grouped (d.pieces t) := by
  fun_induction pieces d t with
  | case1 => exact grouped_of_not_mem (by simp)
  | case2 t _ _ ih => exact (grouped_segment t).after ih (d.covers_pieces _)
  | case3 t _ _ => exact grouped_segment t

end Grouping

/-- In some slice of `t`, at whatever level, an argument stands between `before` and `after`. -/
def Encloses (t before inner after : Text) : Prop :=
  t = before ++ (d.argStart ++ (inner ++ (d.argEnd ++ after))) ∧
  ∃ front s b a, d.Nested t front s ∧ before = front ++ b ∧ a <+: after ∧
    s = b ++ (d.argStart ++ (inner ++ (d.argEnd ++ a))) ∧
    d.Balanced (d.argEnd ++ a) inner ∧ d.ClosesAt (d.argEnd ++ a)

section Enclosing

variable {d : Delimiters} {t s before group after : Text} {ps qs : List Piece}

theorem Encloses.inner (hp : (d.pieces t).pieces = ps ++ .slice s :: qs)
    (h : d.Encloses s before group after) :
    d.Encloses t (Piece.spelling ps ++ before) group
      (after ++ (Piece.spelling qs ++ (d.pieces t).rest)) := by
  obtain ⟨hs, front, u, b, a, hnested, rfl, ha, hu, hmatch⟩ := h
  refine ⟨?_, _, u, b, a, .inner hp hnested, by rw [List.append_assoc],
    ha.trans (List.prefix_append _ _), hu, hmatch⟩
  have hcover : Piece.spelling (d.pieces t).pieces ++ (d.pieces t).rest = t := d.covers_pieces t
  rw [hp, Piece.spelling, List.flatMap_append, List.flatMap_cons] at hcover
  conv_lhs => rw [← hcover]
  rw [Piece.text, hs]
  simp [Piece.spelling]

theorem exists_piece_of_lexemes {before after : List Lexeme} {l : Lexeme}
    (h : d.lexemes ps = before ++ l :: after) : ∃ front p back first last,
      ps = front ++ p :: back ∧ (d.lexPiece p).lexemes = first ++ l :: last ∧
      before = d.lexemes front ++ first ∧ after = last ++ d.lexemes back := by
  induction ps generalizing before with
  | nil => simp [lexemes] at h
  | cons p ps ih =>
    rw [lexemes, List.flatMap_cons] at h
    obtain ⟨more, rfl, hmore⟩ | ⟨more, hfirst, rfl⟩ := append_eq_append_cons h
    · obtain ⟨front, q, back, first, last, rfl, hq, rfl, rfl⟩ := ih hmore
      exact ⟨p :: front, q, back, first, last, rfl, hq, by simp [lexemes], rfl⟩
    · exact ⟨[], p, ps, before, more, rfl, hfirst, rfl, rfl⟩

/-- Where a token opens an argument, the tokens of what it encloses follow, and the one that closes
it. -/
theorem exists_encloses (h : (d.lex t).cause = none) {before after : List Lexeme} {l : Lexeme}
    (hl : (d.lex t).lexemes = before ++ l :: after) (hkind : l.kind = .argStart) :
    ∃ group last, after = (d.lex group).lexemes ++ ⟨.argEnd, d.argEnd⟩ :: last ∧
      (d.lex group).cause = none ∧
      d.Encloses t (Lexeme.spelling before) group (Lexeme.spelling last) := by
  induction t using d.lex_induction generalizing before after with
  | h t ih =>
    obtain ⟨hcause, hcuts⟩ := cause_lex_eq_none_iff.1 h
    rw [lexemes_lex h] at hl
    obtain ⟨front, p, back, first, last, hpieces, hp, rfl, rfl⟩ := exists_piece_of_lexemes hl
    rw [hpieces, cuts_append] at hcuts
    have hfront := spelling_lexemes_of_cuts hcuts.1
    cases p with
    | lexeme kind text =>
      obtain ⟨rfl, rfl, rfl⟩ : first = [] ∧ l = ⟨kind, text⟩ ∧ last = [] := by
        cases first <;> simp_all [lexPiece]
      obtain rfl : kind = .argStart := hkind
      obtain ⟨a, qs, rfl, hargument⟩ := grouped_pieces t front text back hpieces
      obtain ⟨ha, hqs⟩ : (d.lex a).cause = none ∧ d.Cuts qs := by simpa using hcuts.2
      have hcover : Piece.spelling (d.pieces t).pieces ++ (d.pieces t).rest = t :=
        d.covers_pieces t
      have hopened : text = d.argStart := spelled_pieces t .argStart text (by simp [hpieces])
      rw [d.rest_pieces hcause, List.append_nil] at hcover hargument
      have ht : t = Piece.spelling front ++
          (d.argStart ++ (a ++ (d.argEnd ++ Piece.spelling qs))) := by
        rw [← hopened]
        conv_lhs => rw [← hcover, hpieces]
        simp [Piece.spelling, Piece.text]
      refine ⟨a, d.lexemes qs, by simp, ha, ?_⟩
      rw [List.append_nil, hfront, spelling_lexemes_of_cuts hqs]
      exact ⟨ht, [], t, _, _, .whole t, rfl, List.prefix_rfl, ht,
        (argument?_eq_some_iff.1 hargument).2.2⟩
    | slice s =>
      obtain ⟨hs, hback⟩ := cuts_slice.1 hcuts.2
      obtain ⟨group, last', rfl, hgroup, hencloses⟩ := ih s (by simp [hpieces]) hs hp
      refine ⟨group, last' ++ d.lexemes back, by simp, hgroup, ?_⟩
      have hinner := hencloses.inner hpieces
      rw [d.rest_pieces hcause, List.append_nil, ← spelling_lexemes_of_cuts hback, ← hfront]
        at hinner
      simpa [Lexeme.spelling] using hinner

end Enclosing

end Delimiters

/-- A token without its place. -/
def Token.lexeme (t : Token) : Lexeme := ⟨t.kind, t.text⟩

section Quoting

variable {d : Delimiters} {t : Text} {tokens front back between group : List Token} {p : Position}

theorem Token.map_lexeme_place (p : Position) (ls : List Lexeme) :
    (Token.place p ls).map Token.lexeme = ls := by
  induction ls generalizing p with
  | nil => rfl
  | cons l ls ih => rw [Token.place, List.map_cons, ih, Token.lexeme]

theorem Token.spelling_map_lexeme (tokens : List Token) :
    Lexeme.spelling (tokens.map Token.lexeme) = tokens.flatMap Token.text :=
  List.flatMap_map ..

theorem lexemes_of_tokenize (h : tokenize d t = .ok tokens) :
    (d.lex t).cause = none ∧ (d.lex t).lexemes = tokens.map Token.lexeme := by
  obtain ⟨hcause, rfl⟩ := tokenize_eq_ok_iff.1 h
  exact ⟨hcause, (Token.map_lexeme_place _ _).symm⟩

theorem spells_of_tokenize (h : tokenize d t = .ok tokens) {token : Token} (ht : token ∈ tokens) :
    d.Spells token.kind token.text := by
  obtain ⟨hcause, hlexemes⟩ := lexemes_of_tokenize h
  exact Delimiters.spells_of_mem_lex hcause token.lexeme
    (hlexemes ▸ List.mem_map_of_mem ht)

/-- A group that was read as tokens is what an argument encloses in the text. -/
theorem GroupAfter.encloses {opened : Token} (hlex : tokenize d t = .ok tokens)
    (h : GroupAfter tokens front opened group) :
    ∃ after, d.Encloses t (front.flatMap Token.text) (group.flatMap Token.text) after := by
  obtain ⟨closed, back, rfl, hopened, hgroup, hclosed⟩ := h
  obtain ⟨hcause, hlexemes⟩ := lexemes_of_tokenize hlex
  rw [List.map_append, List.map_cons] at hlexemes
  obtain ⟨inner, last, hafter, hinner, hencloses⟩ :=
    Delimiters.exists_encloses hcause hlexemes hopened
  rw [List.map_append, List.map_cons] at hafter
  have hends : group.map Token.kind ++ .argEnd :: back.map Token.kind =
      (d.lex inner).lexemes.map Lexeme.kind ++ .argEnd :: last.map Lexeme.kind := by
    have hmapped := congrArg (List.map Lexeme.kind) hafter
    simpa [Token.lexeme, hclosed, Function.comp_def] using hmapped
  have hkinds : group.map Token.kind = (d.lex inner).lexemes.map Lexeme.kind :=
    group_unique (by rwa [List.foldlM_map]) (groupsAfter?_of_lex hinner) hends
  have hlength : (group.map Token.lexeme).length = (d.lex inner).lexemes.length := by
    simpa using congrArg List.length hkinds
  have hsame : group.map Token.lexeme = (d.lex inner).lexemes := List.append_inj_left hafter hlength
  have htext : group.flatMap Token.text = inner := by
    rw [← Token.spelling_map_lexeme, hsame, d.spelling_lex hinner]
  rw [htext, ← Token.spelling_map_lexeme]
  exact ⟨_, hencloses⟩

theorem CommandAt.text {name : Text} (hlex : tokenize d t = .ok (front ++ back))
    (h : CommandAt front name p between) : ∃ before, p = .endOf before ∧
      front.flatMap Token.text =
        before ++ (d.escape ++ (name ++ between.flatMap Token.text)) := by
  obtain ⟨first, e, n, rfl, he, rfl, -, rfl⟩ := h
  rw [List.append_assoc, List.cons_append] at hlex
  have hescape : e.text = d.escape := by
    have hspells := spells_of_tokenize hlex (show e ∈ _ by simp)
    rwa [he] at hspells
  exact ⟨_, position_of_tokenize hlex, by simp [hescape]⟩

/-- What a leaf at a place of a text holds: a token of literal text or its end from a break on, what
stands between two marks, or the beginning of what follows the name of a comment. -/
inductive Quoted (d : Delimiters) (t : Text) (tokens : List Token) : Form Node → Position → Prop where
  | raw {before after : Text} {token : Token} (htoken : token ∈ tokens) (hkind : token.kind = .raw)
      (hposition : token.position = .endOf before) (h : t = before ++ (token.text ++ after)) :
    Quoted d t tokens (.raw (Reading.unescape d token.text)) (.endOf before)
  | rest {before line slice after : Text} {front between back : List Token} {token : Token}
      (hcommand : CommandAt front Heading.commentName (.endOf before) between)
      (hnext : ∀ next ∈ (between ++ [token]).head?, next.kind ≠ .argStart)
      (htokens : tokens = front ++ token :: back) (hkind : token.kind = .raw)
      (htext : token.text = line ++ '\n' :: slice) (hline : '\n' ∉ line)
      (h : t = before ++ (d.escape ++ (Heading.commentName ++ (between.flatMap Token.text ++ line)))
        ++ '\n' :: slice ++ after) :
    Quoted d t tokens (.raw (Reading.unescape d ('\n' :: slice))) (.endOf
      (before ++ (d.escape ++ (Heading.commentName ++ (between.flatMap Token.text ++ line)))))
  | expression {before source after : Text}
      (h : t = before ++ (d.evalStart ++ (source ++ (d.evalEnd ++ after))))
      (hfirst : ∀ u v, source ++ d.evalEnd = u ++ (d.evalEnd ++ v) → v = []) :
    Quoted d t tokens (.expression source) (.endOf before)
  | source {before source after : Text}
      (h : d.Encloses t (before ++ (d.escape ++ Heading.sourceName)) source after) :
    Quoted d t tokens (.expression source) (.endOf before)
  | argument {before source after : Text} (h : d.Encloses t before source after) :
    Quoted d t tokens (.expression source) (.endOf before)
  | comment {before comment after : Text}
      (h : d.Encloses t (before ++ (d.escape ++ Heading.commentName)) comment after) :
    Quoted d t tokens (.comment comment) (.endOf before)
  | line {before comment after : Text} {back : List Token}
      (hcomment : LineAt tokens (.endOf before) back)
      (h : t = before ++ (d.escape ++ (Heading.commentName ++ (comment ++ after)))) :
    Quoted d t tokens (.comment comment) (.endOf before)

theorem sourceOf_expression (d : Delimiters) (source : Text) :
    Reading.sourceOf d (d.evalStart ++ (source ++ d.evalEnd)) = source := by
  simp [Reading.sourceOf, Text.dropFront, Text.dropBack]

theorem Leaf.quoted (hlex : tokenize d t = .ok tokens) {form : Form Node}
    (h : Leaf tokens d form p) : Quoted d t tokens form p := by
  have ht := text_of_tokenize hlex
  have hgrouped : ∀ {name : Text} {front group : List Token} {opened : Token} {p : Position},
      CommandAt front name p [] → GroupAfter tokens front opened group →
      ∃ before after, p = .endOf before ∧
        d.Encloses t (before ++ (d.escape ++ name)) (group.flatMap Token.text) after := by
    intro name front group opened p hcommand hgroup
    obtain ⟨after, hencloses⟩ := hgroup.encloses hlex
    obtain ⟨_, _, rfl, -⟩ := hgroup
    obtain ⟨before, hposition, hfront⟩ := hcommand.text hlex
    rw [hfront, List.flatMap_nil, List.append_nil] at hencloses
    exact ⟨before, after, hposition, hencloses⟩
  cases h with
  | @raw token htoken hkind =>
    obtain ⟨front, back, rfl⟩ := List.append_of_mem htoken
    have hposition := position_of_tokenize hlex
    rw [List.flatMap_append, List.flatMap_cons] at ht
    rw [hposition]
    exact .raw htoken hkind hposition ht
  | @rest front between back p token line slice hcommand hnext htokens hkind htext hline =>
    obtain ⟨before, rfl, hfront⟩ := hcommand.text (htokens ▸ hlex)
    have hposition : token.position.after line = .endOf
        (before ++ (d.escape ++
          (Heading.commentName ++ (between.flatMap Token.text ++ line)))) := by
      rw [position_of_tokenize (htokens ▸ hlex), hfront, ← Position.start_after,
        ← Position.after_append, ← Position.start_after]
      simp only [List.append_assoc]
    have hslice : t = before ++ (d.escape ++
        (Heading.commentName ++ (between.flatMap Token.text ++ line))) ++ '\n' :: slice ++
          back.flatMap Token.text := by
      rw [ht, htokens, List.flatMap_append, List.flatMap_cons, hfront, htext]
      simp only [List.append_assoc]
    rw [hposition]
    exact .rest hcommand hnext htokens hkind htext hline hslice
  | @expression token htoken hkind =>
    obtain ⟨front, back, rfl⟩ := List.append_of_mem htoken
    have hspells := spells_of_tokenize hlex htoken
    rw [hkind] at hspells
    obtain ⟨source, htext, hfirst⟩ := hspells
    rw [List.flatMap_append, List.flatMap_cons, htext] at ht
    simp only [List.append_assoc] at ht
    rw [htext, sourceOf_expression, position_of_tokenize hlex]
    exact .expression ht hfirst
  | source hcommand hgroup =>
    obtain ⟨before, after, rfl, hencloses⟩ := hgrouped hcommand hgroup
    exact .source hencloses
  | @argument front group opened hgroup =>
    obtain ⟨after, hencloses⟩ := hgroup.encloses hlex
    obtain ⟨_, _, rfl, -⟩ := hgroup
    rw [position_of_tokenize hlex]
    exact .argument hencloses
  | comment hcommand hgroup =>
    obtain ⟨before, after, rfl, hencloses⟩ := hgrouped hcommand hgroup
    exact .comment hencloses
  | @line back p comment hcomment htext =>
    rw [← List.append_nil tokens] at hlex
    obtain ⟨before, rfl, hfront⟩ := hcomment.1.text hlex
    obtain ⟨after, hafter⟩ := htext
    rw [hfront, ← hafter] at ht
    exact .line hcomment ht

end Quoting

section Results

variable {d : Delimiters} {t : Text} {tokens : List Token} {program : List Node}

end Results

end Stencil
