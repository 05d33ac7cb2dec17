import Stencil.Proofs.Lines
import Stencil.Proofs.Reading

/-! The rest of a line as a comment. It hides the line where what the line begins also ends in it; a
group, a list or an expression that is begun and not ended takes the lines up to its end as well. -/
namespace Stencil

/-- How many groups and lists are open in a line comment after a lexeme that it goes on over. -/
def lineAfter? (n : Nat) (l : Lexeme) : Option Nat :=
  match l.kind with
  | .argStart | .paramStart => some (n + 1)
  | .argEnd | .paramEnd => if n = 0 then none else some (n - 1)
  | .paramSep => if n = 0 then none else some n
  | .raw => if n = 0 ∧ '\n' ∈ l.text then none else some n
  | _ => some n

/-- How many groups and lists are open in a line comment after lexemes that it goes on over. -/
def lineOpen? (n : Nat) (ls : List Lexeme) : Option Nat := ls.foldlM lineAfter? n

theorem lineOpen?_cons (n : Nat) (l : Lexeme) (ls : List Lexeme) :
    lineOpen? n (l :: ls) = (lineAfter? n l).bind (lineOpen? · ls) := rfl

theorem lineOpen?_append (n : Nat) (ls ls' : List Lexeme) :
    lineOpen? n (ls ++ ls') = (lineOpen? n ls).bind (lineOpen? · ls') :=
  List.foldlM_append

theorem lineAfter?_of_step {g g' : Stand} {l : Lexeme} (n : Nat) (h : Stand.Step g l.kind g') :
    lineAfter? (n + 1 + g.marks.length) l = some (n + 1 + g'.marks.length) := by
  obtain ⟨kind, text⟩ := l
  have hdepth : n + 1 + g.marks.length = n + g.marks.length + 1 := by omega
  rw [hdepth]
  cases h <;> simp [lineAfter?] <;> omega

theorem lineOpen?_of_run {g g' : Stand} {ls : List Lexeme} (n : Nat)
    (h : Stand.Run g (ls.map Lexeme.kind) g') :
    lineOpen? (n + 1 + g.marks.length) ls = some (n + 1 + g'.marks.length) := by
  induction ls generalizing g with
  | nil =>
    cases h
    rfl
  | cons l ls ih =>
    cases h with
    | cons hs hr =>
      rw [lineOpen?_cons, lineAfter?_of_step n hs]
      exact ih hr

namespace Delimiters

variable {d : Delimiters} {n m k : Nat} {ps qs : List Piece}

/-- The comment goes on over `ps`, from `n` open groups and lists to `m`. -/
def Swallows (d : Delimiters) (n : Nat) (ps : List Piece) (m : Nat) : Prop :=
  d.Cuts ps → lineOpen? n (d.lexemes ps) = some m

theorem Swallows.nil : d.Swallows n [] n := fun _ => rfl

theorem Swallows.append (h : d.Swallows n ps m) (h' : d.Swallows m qs k) :
    d.Swallows n (ps ++ qs) k := by
  intro hs
  obtain ⟨hps, hqs⟩ := cuts_append.1 hs
  rw [lexemes_append, lineOpen?_append, h hps]
  exact h' hqs

theorem Swallows.lexeme {kind : TokenKind} {t : Text} (h : lineAfter? n ⟨kind, t⟩ = some m)
    (h' : d.Swallows m ps k) : d.Swallows n (.lexeme kind t :: ps) k := by
  intro hs
  rw [lexemes_lexeme, lineOpen?_cons, h]
  exact h' (cuts_lexeme.1 hs)

theorem Swallows.slice {s : Text} (h : d.Swallows (n + 1) ps k) :
    d.Swallows (n + 1) (.slice s :: ps) k := by
  intro hs
  obtain ⟨hcause, hps⟩ := cuts_slice.1 hs
  obtain ⟨spot, -, hrun⟩ := d.settled_of_lex hcause .statement [] trivial
  have hslice : lineOpen? (n + 1) (d.lex s).lexemes = some (n + 1) := lineOpen?_of_run n hrun
  rw [lexemes_slice, lineOpen?_append, hslice]
  exact h hps

theorem swallows_param (t : Text) : d.Swallows (n + 1) (d.param t).pieces (n + 1) := by
  have hvalue : d.Swallows (n + 1) (d.paramValue (d.cutKey t).2).pieces (n + 1) := by
    unfold paramValue
    split
    · exact .lexeme rfl (.slice .nil)
    · exact .nil
  refine .lexeme rfl (hvalue.append ?_)
  unfold optional
  split
  · exact .lexeme rfl .nil
  · exact .nil

theorem swallows_params {t : Text} (h : (d.params t).cause = none) :
    d.Swallows (n + 1) (d.params t).pieces n := by
  fun_induction params d t with
  | case1 => cases h
  | case2 => exact .lexeme rfl .nil
  | case3 t _ _ p ih => exact (swallows_param t).append (ih h)

theorem swallows_paramList {t : Text} (h : (d.paramList t).cause = none) :
    d.Swallows n (d.paramList t).pieces n := by
  unfold paramList at h ⊢
  split at h <;> rename_i hstart
  · rw [if_pos hstart]
    exact .lexeme rfl (swallows_params h)
  · rw [if_neg hstart]
    exact .nil

theorem swallows_arguments (t : Text) : d.Swallows n (d.arguments t).pieces n := by
  fun_induction arguments d t with
  | case1 t a r _ ih => exact .lexeme rfl (.slice (.lexeme rfl ih))
  | case2 => exact .nil

theorem swallows_command {t : Text} (h : (d.command t).cause = none) :
    d.Swallows n (d.command t).pieces n := by
  have hlist : (d.paramList (d.cutName t).2).cause = none := Cut.cause_of_andThen h
  simp only [command, Cut.andThen_of_cause_eq_none hlist]
  exact .lexeme rfl ((swallows_paramList hlist).append (swallows_arguments _))

theorem swallows_segment {t : Text} (hlive : d.AtLive t) (h : (d.segment t).cause = none) :
    d.Swallows n (d.segment t).pieces n := by
  unfold segment at h ⊢
  split at h <;> rename_i hc
  · rw [if_pos hc]
    exact .lexeme rfl (swallows_command h)
  · have he := hlive.resolve_left hc
    rw [if_pos he] at h
    rw [if_neg hc, if_pos he]
    unfold expression at h ⊢
    dsimp only at h ⊢
    split at h <;> rename_i hend
    · rw [if_pos hend]
      exact .lexeme rfl .nil
    · cases h

theorem Front.swallows {t r : Text} (h : d.Front t ps r) (hline : '\n' ∉ t) :
    d.Swallows 0 ps 0 := by
  induction h with
  | done => exact .nil
  | @segment t t' r qs ps hne hs hrest ih =>
    have hcovers : Piece.spelling qs ++ t' = t := by simpa [hs, Cut.Covers] using d.covers_segment t
    have hqs : d.Swallows 0 qs 0 := by
      by_cases hlive : d.AtLive t
      · simpa [hs] using swallows_segment (n := 0) hlive (by rw [hs])
      · rw [segment_of_not_atLive hlive] at hs
        obtain ⟨rfl, -⟩ := Cut.mk.inj hs
        have hraw : '\n' ∉ (d.cutRaw t).1 := fun hm =>
          hline (hcovers ▸ List.mem_append_left _ (by simpa [Piece.spelling, Piece.text] using hm))
        exact .lexeme (by simp [lineAfter?, hraw]) .nil
    exact hqs.append (ih fun hm => hline (hcovers ▸ List.mem_append_right _ hm))

/-- A line that is cut to the end is cut alike where more follows, but for the literal text at its
end. -/
theorem IsPlain.lex_append_break (hd : d.IsPlain) {rest : Text}
    (hrest : (d.lex ('\n' :: rest)).cause = none) :
    ∃ r back, (d.lex ('\n' :: rest)).lexemes = ⟨.raw, '\n' :: r⟩ :: back ∧
      ∀ s, '\n' ∉ s → (d.lex s).cause = none → (d.lex (s ++ '\n' :: rest)).cause = none ∧
        ∃ front w, (d.lex (s ++ '\n' :: rest)).lexemes = front ++ ⟨.raw, w ++ '\n' :: r⟩ :: back ∧
          Lexeme.spelling front ++ w = s ∧ lineOpen? 0 front = some 0 := by
  obtain ⟨r, hr⟩ := hd.exists_cutRaw_break rest
  have hnext := hd.pieces_literal_append rest not_atLive_nil rfl
  rw [List.nil_append, List.nil_append, hr] at hnext
  obtain ⟨hcause, hback⟩ := cause_lex_eq_none_iff.1 hrest
  rw [hnext] at hcause hback
  refine ⟨r, d.lexemes (d.pieces (d.cutRaw ('\n' :: rest)).2).pieces, ?_, fun s hline hs => ?_⟩
  · rw [lexemes_lex hrest, hnext]
    rfl
  obtain ⟨ps, w, hfront, hfront', hend⟩ := hd.exists_front rest s
  obtain ⟨hc, hcuts⟩ := cause_lex_eq_none_iff.1 hs
  rw [hfront.pieces] at hc hcuts
  cases hend with
  | begun hlive hstop =>
    rw [pieces, dif_neg (fun h => not_atLive_nil (h ▸ hlive)), dif_neg hstop] at hc
    exact absurd hc hstop
  | literal hlive hcut =>
    have hps : d.Cuts ps := (cuts_append.1 hcuts).1
    have hwhole : d.pieces (s ++ '\n' :: rest) = _ := hfront'.pieces
    rw [hd.pieces_literal_append rest hlive hcut, hr] at hwhole
    have hok : (d.lex (s ++ '\n' :: rest)).cause = none := by
      rw [cause_lex_eq_none_iff, hwhole]
      exact ⟨hcause, cuts_append.2 ⟨hps, cuts_lexeme.2 (cuts_lexeme.1 hback)⟩⟩
    refine ⟨hok, d.lexemes ps, w, ?_, ?_, hfront.swallows hline hps⟩
    · rw [lexemes_lex hok, hwhole]
      simp [Cut.after, lexemes, lexPiece]
    · rw [spelling_lexemes_of_cuts hps, hfront.spelling_append]

theorem IsPlain.lex_append_break_of_stops (hd : d.IsPlain) {s rest : Text} (hline : '\n' ∉ s)
    (hs : (d.lex s).cause ≠ none) (h : (d.lex (s ++ '\n' :: rest)).cause = none) :
    ∃ front back, (d.lex (s ++ '\n' :: rest)).lexemes = front ++ back ∧
      s.length < (Lexeme.spelling front).length ∧ lineOpen? 0 front = some 0 := by
  obtain ⟨ps, w, hfront, hfront', hend⟩ := hd.exists_front rest s
  obtain ⟨hc, hcuts⟩ := cause_lex_eq_none_iff.1 h
  rw [hfront'.pieces] at hc hcuts
  have hps : d.Cuts ps := (cuts_append.1 hcuts).1
  cases hend with
  | literal hlive hcut =>
    refine absurd (cause_lex_eq_none_iff.2 ?_) hs
    rw [hfront.pieces, pieces_literal hlive hcut]
    refine ⟨rfl, cuts_append.2 ⟨hps, ?_⟩⟩
    dsimp only
    split <;> simp
  | begun hlive hstop hover =>
    have hne : w ++ '\n' :: rest ≠ [] := by simp
    have hsegment : (d.segment (w ++ '\n' :: rest)).cause = none := by
      by_contra hno
      rw [pieces, dif_neg hne, dif_neg hno] at hc
      exact hno hc
    have hpieces : d.pieces (w ++ '\n' :: rest) =
        (d.pieces (d.segment (w ++ '\n' :: rest)).rest).after
          (d.segment (w ++ '\n' :: rest)).pieces := by
      rw [pieces, dif_neg hne, dif_pos hsegment]
    have hlive' := (hd.atLive_append_break rest w).2 hlive
    have hcovers : Piece.spelling (d.segment (w ++ '\n' :: rest)).pieces ++
      (d.segment (w ++ '\n' :: rest)).rest = w ++ '\n' :: rest := d.covers_segment _
    have hcut : d.Cuts (ps ++ (d.segment (w ++ '\n' :: rest)).pieces) := by
      rw [hpieces] at hcuts
      exact cuts_append.2 ⟨hps, (cuts_append.1 (cuts_append.1 hcuts).2).1⟩
    refine ⟨d.lexemes (ps ++ (d.segment (w ++ '\n' :: rest)).pieces),
      d.lexemes (d.pieces (d.segment (w ++ '\n' :: rest)).rest).pieces, ?_, ?_, ?_⟩
    · rw [lexemes_lex h, hfront'.pieces, hpieces]
      simp [Cut.after, lexemes]
    · have hlen := congrArg List.length hcovers
      have hlt := hover hsegment
      rw [spelling_lexemes_of_cuts hcut, ← hfront.spelling_append]
      simp only [Piece.spelling, List.flatMap_append, List.length_append, List.length_cons]
        at hlen hlt ⊢
      omega
    · exact ((hfront.swallows hline).append (swallows_segment hlive' hsegment)) hcut

end Delimiters

namespace Position

theorem after_break {p q : Position} (h : p.row = q.row) (t : Text) :
    p.after ('\n' :: t) = q.after ('\n' :: t) := by
  change (p.next '\n').after t = (q.next '\n').after t
  simp [next, h]

end Position

namespace Reading

variable {d : Delimiters} {levels : List Level} {body : List Node} {p l : Position} {n m : Nat}
  {text : Text}

theorem take_line {t : Token} (h : lineAfter? n ⟨t.kind, t.text⟩ = some m) :
    take d ⟨levels, body, .line p n text, l⟩ t =
      .ok ⟨levels, body, .line p m (text ++ t.text), t.position⟩ := by
  obtain ⟨kind, s, q⟩ := t
  simp only [take, commentLine]
  cases kind <;> cases n <;> simp only [lineAfter?, Nat.add_one_ne_zero, if_true, if_false,
    false_and, true_and, Option.ite_none_left_eq_some, Option.some.injEq, reduceCtorEq] at h
  case raw.zero =>
    obtain ⟨hs, rfl⟩ := h
    rw [Text.cutAt?_eq_none_iff.2 hs]
    rfl
  all_goals subst h; rfl

theorem take_line_break {s r : Text} {q : Position} (hs : '\n' ∉ s) :
    take d ⟨levels, body, .line p 0 text, l⟩ ⟨.raw, s ++ '\n' :: r, q⟩ =
      .ok ⟨levels, body ++ [commentNode (text ++ s) p] ++ [rawNode d ('\n' :: r) (q.after s)],
        .statements, q.after s⟩ := by
  simp only [take, commentLine, Text.cutAt?_append hs]
  rfl

/-- A comment goes on, ends before a line break, or ends the program. -/
theorem of_take_line {t : Token} {r : Reading}
    (h : take d ⟨[], [], .line p n text, l⟩ t = .ok r) :
    (∃ m, r = ⟨[], [], .line p m (text ++ t.text), t.position⟩) ∨
      ∃ more nodes l', r = ⟨[], commentNode (text ++ more) p :: nodes, .statements, l'⟩ := by
  obtain ⟨kind, s, q⟩ := t
  simp only [take, commentLine] at h
  split at h
  · cases h
  · cases h
  · cases h
  · exact .inl ⟨_, (Except.ok.inj h).symm⟩
  · exact .inl ⟨_, (Except.ok.inj h).symm⟩
  · exact .inl ⟨_, (Except.ok.inj h).symm⟩
  · exact .inl ⟨_, (Except.ok.inj h).symm⟩
  · split at h
    · exact .inl ⟨_, (Except.ok.inj h).symm⟩
    · exact .inr ⟨_, _, _, (Except.ok.inj h).symm⟩
  · exact .inl ⟨_, (Except.ok.inj h).symm⟩

theorem program?_line {ls : List Lexeme} (h : lineOpen? n ls = some m) (q : Position)
    (tokens : List Token) :
    program? d ⟨levels, body, .line p n text, l⟩ (Token.place q ls ++ tokens) =
      program? d ⟨levels, body, .line p m (text ++ Lexeme.spelling ls), l⟩ tokens := by
  induction ls generalizing n text q with
  | nil =>
    obtain rfl : n = m := Option.some.inj h
    simp [Token.place, Lexeme.spelling]
  | cons lexeme ls ih =>
    rw [lineOpen?_cons] at h
    obtain ⟨n', hafter, hopen⟩ := Option.bind_eq_some_iff.1 h
    rw [Token.place, List.cons_append, program?_cons d _ (take_line hafter)]
    refine (program?_last d ⟨levels, body, .line p n' (text ++ lexeme.text), l⟩ q _).trans ?_
    rw [ih hopen]
    simp [Lexeme.spelling]

theorem head_program?_line {tokens : List Token} {program : List Node}
    (h : program? d ⟨[], [], .line p n text, l⟩ tokens = some program) :
    ∃ more nodes, program = commentNode (text ++ more) p :: nodes := by
  induction tokens generalizing n text l with
  | nil =>
    refine ⟨[], [], ?_⟩
    rw [List.append_nil]
    exact (Option.some.inj h).symm
  | cons t tokens ih =>
    cases htake : take d ⟨[], [], .line p n text, l⟩ t with
    | error fault =>
      simp only [program?, List.foldlM_cons, htake] at h
      cases h
    | ok r =>
      rw [program?_cons d _ htake] at h
      obtain ⟨m, rfl⟩ | ⟨more, nodes, l', rfl⟩ := of_take_line htake
      · obtain ⟨more, nodes, hprogram⟩ := ih h
        exact ⟨t.text ++ more, nodes, by rw [hprogram, List.append_assoc]⟩
      · rw [← onto_root, program?_onto] at h
        obtain ⟨after, -, rfl⟩ := Option.map_eq_some_iff.1 h
        exact ⟨more, nodes ++ after, rfl⟩

theorem program?_comment {tokens : List Token} (h : ∀ t ∈ tokens.head?, t.kind ≠ .argStart) :
    program? d ⟨levels, body, .comment p, l⟩ tokens =
      program? d ⟨levels, body, .line p 0 [], l⟩ tokens := by
  cases tokens with
  | nil => rfl
  | cons t tokens =>
    have htake : take d ⟨levels, body, .comment p, l⟩ t =
        take d ⟨levels, body, .line p 0 [], l⟩ t := by
      simp only [take, if_neg (h t rfl)]
      rfl
    unfold program?
    rw [List.foldlM_cons, List.foldlM_cons, htake]

end Reading

namespace Config

theorem isPlain_delimiters_initial : initial.delimiters.IsPlain := by
  rw [delimiters_initial]
  constructor <;> exact ⟨_, rfl, by decide⟩

end Config

theorem lex_comment (t : Text) : Config.initial.delimiters.lex ("\\# ".toList ++ t) =
    ⟨[⟨.escape, ['\\']⟩, ⟨.commandName, Heading.commentName⟩] ++
      (Config.initial.delimiters.lex (' ' :: t)).lexemes,
      (Config.initial.delimiters.lex (' ' :: t)).cause⟩ := by
  have hsegment : Config.initial.delimiters.segment ("\\# ".toList ++ t) =
      ⟨[.lexeme .escape ['\\'], .lexeme .commandName Heading.commentName], ' ' :: t, none⟩ := by
    have hnone : Config.initial.delimiters.argument? (' ' :: t) = none := by
      rw [Config.delimiters_initial]
      rfl
    have harguments := Delimiters.arguments_of_none hnone
    rw [Config.delimiters_initial] at harguments ⊢
    change Cut.after _ (Cut.after _ (Cut.andThen ⟨[], ' ' :: t, none⟩ _)) = _
    rw [Cut.andThen_of_cause_eq_none rfl, harguments]
    rfl
  have hpieces : Config.initial.delimiters.pieces ("\\# ".toList ++ t) =
      (Config.initial.delimiters.pieces (' ' :: t)).after
        [.lexeme .escape ['\\'], .lexeme .commandName Heading.commentName] := by
    rw [Delimiters.pieces, dif_neg (by simp), hsegment, dif_pos rfl]
  rw [Delimiters.lex_eq, Delimiters.lex_eq, hpieces]
  rfl

theorem head?_lexemes {d : Delimiters} {t : Text} (h : (d.lex t).cause = none) :
    ∀ l ∈ (d.lex t).lexemes.head?, l.kind ≠ .argStart := by
  obtain ⟨spot, -, hrun⟩ := d.settled_of_lex h .statement [] trivial
  intro l hl hkind
  cases hls : (d.lex t).lexemes with
  | nil => simp [hls] at hl
  | cons l' ls =>
    rw [hls, List.head?_cons, Option.mem_some_iff] at hl
    subst hl
    rw [hls, List.map_cons, hkind] at hrun
    cases hrun with
    | cons hs _ => simpa using hs.of_argStart.1

theorem program?_place_comment {ls : List Lexeme} (h : ∀ l ∈ ls.head?, l.kind ≠ .argStart) :
    Reading.initial.program? Config.initial.delimiters (Token.place .start
      ([⟨.escape, ['\\']⟩, ⟨.commandName, Heading.commentName⟩] ++ ls)) =
      Reading.program? Config.initial.delimiters ⟨[], [], .line .start 0 [], ⟨0, 1⟩⟩
        (Token.place ⟨0, 2⟩ ls) := by
  have hescape : Reading.initial.take Config.initial.delimiters
      ⟨.escape, ['\\'], .start⟩ = .ok ⟨[], [], .name .start, .start⟩ := rfl
  have hname : Reading.take Config.initial.delimiters ⟨[], [], .name .start, .start⟩
      ⟨.commandName, Heading.commentName, ⟨0, 1⟩⟩ = .ok ⟨[], [], .comment .start, ⟨0, 1⟩⟩ := rfl
  rw [Token.place_append]
  refine (Reading.program?_cons _ _ hescape _).trans ?_
  refine (Reading.program?_cons _ _ hname _).trans ?_
  refine Reading.program?_comment fun t ht => ?_
  cases ls with
  | nil => cases ht
  | cons l ls =>
    obtain rfl : _ = t := Option.some.inj ht
    exact h l rfl

namespace Reading

variable (d : Delimiters) {front back : List Lexeme} {r w : Text}

theorem program?_place_break : initial.program? d
      (Token.place .start (⟨.raw, '\n' :: r⟩ :: back)) =
    (initial.program? d (Token.place (Position.start.after ('\n' :: r)) back)).map
      ([rawNode d ('\n' :: r) .start] ++ ·) := by
  have htake : initial.take d ⟨.raw, '\n' :: r, .start⟩ =
      .ok (initial.onto [rawNode d ('\n' :: r) .start]) := rfl
  rw [Token.place, program?_cons d _ htake, program?_onto]

theorem program?_place_line {l : Position} (hline : '\n' ∉ Lexeme.spelling front ++ w)
    (hopen : lineOpen? 0 front = some 0) :
    program? d ⟨[], [], .line .start 0 [], l⟩
        (Token.place ⟨0, 2⟩ (front ++ ⟨.raw, w ++ '\n' :: r⟩ :: back)) =
      (initial.program? d (Token.place (Position.start.after ('\n' :: r)) back)).map
        ([commentNode (Lexeme.spelling front ++ w) .start,
          rawNode d ('\n' :: r) ⟨0, (Lexeme.spelling front ++ w).length + 2⟩] ++ ·) := by
  have hw : '\n' ∉ w := fun h => hline (List.mem_append_right _ h)
  have hend : (Position.after ⟨0, 2⟩ (Lexeme.spelling front)).after w =
      ⟨0, (Lexeme.spelling front ++ w).length + 2⟩ := by
    rw [← Position.after_append, Position.after_of_not_mem hline, Nat.add_comm]
  have hafter : (Position.after ⟨0, 2⟩ (Lexeme.spelling front)).after (w ++ '\n' :: r) =
      Position.start.after ('\n' :: r) := by
    rw [Position.after_append, hend]
    exact Position.after_break rfl r
  rw [Token.place_append, program?_line hopen, Token.place,
    program?_cons d _ (take_line_break hw), hend, hafter]
  exact (program?_last d (initial.onto [commentNode (Lexeme.spelling front ++ w) .start,
    rawNode d ('\n' :: r) ⟨0, (Lexeme.spelling front ++ w).length + 2⟩]) _ _).trans
      (program?_onto d _ initial _)

end Reading

section

variable {t line rest : Text} {program : List Node}

/-- Without any setting, `t` is cut into tokens to its end. -/
def Tokenizes (t : Text) : Prop := ∃ tokens, tokenize Config.initial.delimiters t = .ok tokens

/-- Without any setting, `t` is the text of `program`. -/
def IsProgram (t : Text) (program : List Node) : Prop :=
  ∃ tokens, tokenize Config.initial.delimiters t = .ok tokens ∧
    parse Config.initial.delimiters tokens = .ok program

theorem tokenizes_iff : Tokenizes t ↔ (Config.initial.delimiters.lex t).cause = none := by
  simp [Tokenizes, tokenize_eq_ok_iff]

theorem isProgram_iff : IsProgram t program ↔ Tokenizes t ∧
    Reading.initial.program? Config.initial.delimiters
      (Token.place .start (Config.initial.delimiters.lex t).lexemes) = some program := by
  simp [IsProgram, tokenizes_iff, tokenize_eq_ok_iff, parse_eq_ok_iff]

/-- A text that begins with a comment is read as the rest of a line. -/
theorem isProgram_comment_iff : IsProgram ("\\# ".toList ++ t) program ↔ Tokenizes (' ' :: t) ∧
    Reading.program? Config.initial.delimiters ⟨[], [], .line .start 0 [], ⟨0, 1⟩⟩
      (Token.place ⟨0, 2⟩ (Config.initial.delimiters.lex (' ' :: t)).lexemes) = some program := by
  rw [isProgram_iff, tokenizes_iff, tokenizes_iff, lex_comment]
  refine and_congr_right fun h => ?_
  rw [program?_place_comment (head?_lexemes h)]

theorem exists_isProgram_comment (h : IsProgram ('\n' :: rest) program) :
    ∃ text after, program = .mk (.raw text) .start :: after ∧
      ∀ line, '\n' ∉ line → Tokenizes (' ' :: line) →
        IsProgram ("\\# ".toList ++ (line ++ '\n' :: rest)) (.mk (.comment (' ' :: line)) .start ::
          .mk (.raw text) ⟨⟨0, line.length + 3⟩, none⟩ :: after) := by
  obtain ⟨hrest, hprogram⟩ := isProgram_iff.1 h
  obtain ⟨r, back, hlexemes, hok⟩ :=
    Config.isPlain_delimiters_initial.lex_append_break (tokenizes_iff.1 hrest)
  rw [hlexemes, Reading.program?_place_break] at hprogram
  obtain ⟨after, hafter, rfl⟩ := Option.map_eq_some_iff.1 hprogram
  refine ⟨_, after, rfl, fun line hline hcut => ?_⟩
  have hline' : '\n' ∉ ' ' :: line := by simpa using hline
  obtain ⟨hwhole, front, w, hls, hspelling, hopen⟩ := hok _ hline' (tokenizes_iff.1 hcut)
  rw [List.cons_append] at hwhole hls
  refine isProgram_comment_iff.2 ⟨tokenizes_iff.2 hwhole, ?_⟩
  rw [hls, Reading.program?_place_line _ (by rwa [hspelling]) hopen, hspelling, hafter]
  rfl

theorem exists_past_of_isProgram_comment (hline : '\n' ∉ line) (hcut : ¬ Tokenizes (' ' :: line))
    (h : IsProgram ("\\# ".toList ++ (line ++ '\n' :: rest)) program) :
    ∃ more nodes, more ≠ [] ∧ program = .mk (.comment (' ' :: line ++ more)) .start :: nodes := by
  obtain ⟨hwhole, hprogram⟩ := isProgram_comment_iff.1 h
  rw [← List.cons_append, tokenizes_iff] at hwhole
  rw [← List.cons_append] at hprogram
  have hline' : '\n' ∉ ' ' :: line := by simpa using hline
  obtain ⟨front, back, hls, hlong, hopen⟩ :=
    Config.isPlain_delimiters_initial.lex_append_break_of_stops hline'
      (tokenizes_iff.not.1 hcut) hwhole
  rw [hls, Token.place_append, Reading.program?_line hopen, List.nil_append] at hprogram
  obtain ⟨more, nodes, rfl⟩ := Reading.head_program?_line hprogram
  have hspelling := Config.initial.delimiters.spelling_lex hwhole
  rw [hls, Lexeme.spelling, List.flatMap_append] at hspelling
  obtain ⟨past, hpast⟩ : ' ' :: line <+: Lexeme.spelling front :=
    List.prefix_of_prefix_length_le ⟨_, rfl⟩ ⟨_, hspelling⟩ hlong.le
  refine ⟨past ++ more, nodes, fun hnil => ?_, ?_⟩
  · obtain ⟨rfl, -⟩ := List.append_eq_nil_iff.1 hnil
    rw [← hpast, List.append_nil] at hlong
    exact lt_irrefl _ hlong
  · rw [← hpast, List.append_assoc]
    rfl

theorem IsProgram.unique {program' : List Node} (h : IsProgram t program)
    (h' : IsProgram t program') : program = program' :=
  Option.some.inj ((isProgram_iff.1 h).2.symm.trans (isProgram_iff.1 h').2)

/-- A line comment holds just the rest of its line exactly where that is cut into tokens by itself;
else it also holds what it takes to end what the line begins. -/
theorem comment_of_line (hline : '\n' ∉ line) (hrest : IsProgram ('\n' :: rest) program) :
    ∃ text after, program = .mk (.raw text) .start :: after ∧
      (Tokenizes (' ' :: line) →
        IsProgram ("\\# ".toList ++ (line ++ '\n' :: rest)) (.mk (.comment (' ' :: line)) .start ::
          .mk (.raw text) ⟨⟨0, line.length + 3⟩, none⟩ :: after)) ∧
      ∀ program', IsProgram ("\\# ".toList ++ (line ++ '\n' :: rest)) program' →
        ∃ more nodes, program' = .mk (.comment (' ' :: line ++ more)) .start :: nodes ∧
          (more = [] ↔ Tokenizes (' ' :: line)) := by
  obtain ⟨text, after, hprogram, hhides⟩ := exists_isProgram_comment hrest
  refine ⟨text, after, hprogram, hhides line hline, fun program' hwhole => ?_⟩
  by_cases hcut : Tokenizes (' ' :: line)
  · obtain rfl := (hhides line hline hcut).unique hwhole
    exact ⟨[], _, by rw [List.append_nil], iff_of_true rfl hcut⟩
  · obtain ⟨more, nodes, hmore, rfl⟩ := exists_past_of_isProgram_comment hline hcut hwhole
    exact ⟨more, nodes, rfl, iff_of_false hmore hcut⟩

end

theorem comment_of_line_group :
    '\n' ∉ "\\x\x7b".toList ∧ (∃ program, IsProgram "\n\x7dy".toList program) ∧
      IsProgram "\\# \\x\x7b\n\x7dy".toList
        [.mk (.comment " \\x\x7b\n\x7dy".toList) .start] ∧
      ¬ Tokenizes " \\x\x7b".toList := by
  have hline : '\n' ∉ "\\x\x7b".toList := by decide
  have hrest : IsProgram "\n\x7dy".toList [.mk (.raw "\n\x7dy".toList) .start] := by
    refine ⟨Token.place .start [⟨.raw, "\n\x7dy".toList⟩], ?_⟩
    rw [Config.delimiters_initial]
    exact ⟨by cbv, by cbv⟩
  have hwhole : IsProgram "\\# \\x\x7b\n\x7dy".toList
      [.mk (.comment " \\x\x7b\n\x7dy".toList) .start] := by
    refine ⟨Token.place .start [⟨.escape, ['\\']⟩, ⟨.commandName, ['#']⟩, ⟨.raw, [' ']⟩,
      ⟨.escape, ['\\']⟩, ⟨.commandName, ['x']⟩, ⟨.argStart, ['{']⟩, ⟨.raw, ['\n']⟩,
      ⟨.argEnd, ['}']⟩, ⟨.raw, ['y']⟩], ?_⟩
    rw [Config.delimiters_initial]
    exact ⟨by cbv, by cbv⟩
  obtain ⟨-, -, -, -, hall⟩ := comment_of_line hline hrest
  obtain ⟨more, nodes, heq, hiff⟩ := hall _ hwhole
  refine ⟨hline, ⟨_, hrest⟩, hwhole, fun hcut => ?_⟩
  simp [hiff.2 hcut] at heq

theorem comment_of_unterminated :
    '\n' ∉ [Char.ofNat 96] ∧ (∃ program, IsProgram "\nb".toList program) ∧
      tokenize Config.initial.delimiters ("\\# ".toList ++ ([Char.ofNat 96] ++ "\nb".toList)) =
        .error ⟨.unterminated, ⟨0, 3⟩⟩ := by
  refine ⟨by decide, ⟨[.mk (.raw "\nb".toList) .start],
    Token.place .start [⟨.raw, "\nb".toList⟩], ?_⟩, ?_⟩
  · rw [Config.delimiters_initial]
    exact ⟨by cbv, by cbv⟩
  · rw [Config.delimiters_initial]
    cbv

end Stencil
