import Stencil.Proofs.Lexing

/-! The order in which tokens follow each other: what may stand at a place depends on the token
before it and on the marks that are open there. Cutting a template keeps to it. -/
namespace Stencil

/-- What the token before a place leaves open. -/
inductive Spot where
  /-- A statement may begin, but no argument. -/
  | statement
  /-- An escape stands before. -/
  | name
  /-- A command name stands before. -/
  | heading
  /-- Parameters or an argument stand before. -/
  | arguments
  /-- A list of parameters goes on with a key or ends. -/
  | key
  /-- A key stands before. -/
  | keyed
  deriving DecidableEq, Repr

/-- Whether a statement may begin, or the statements may end. -/
def Spot.Free : Spot → Prop
  | .statement | .heading | .arguments => True
  | .name | .key | .keyed => False

/-- A place among tokens: the tokens before it and the marks that are open, innermost first. -/
structure Stand where
  spot : Spot
  marks : List TokenKind
  deriving DecidableEq, Repr

namespace Stand

/-- Which kind of token may stand at a place, and the place after it. -/
inductive Step : Stand → TokenKind → Stand → Prop
  | raw {s m} (h : s.Free) : Step ⟨s, m⟩ .raw ⟨.statement, m⟩
  | expression {s m} (h : s.Free) : Step ⟨s, m⟩ .expression ⟨.statement, m⟩
  | escape {s m} (h : s.Free) : Step ⟨s, m⟩ .escape ⟨.name, m⟩
  | commandName {m} : Step ⟨.name, m⟩ .commandName ⟨.heading, m⟩
  | paramStart {m} : Step ⟨.heading, m⟩ .paramStart ⟨.key, .paramStart :: m⟩
  | argStart {s m} (h : s = .heading ∨ s = .arguments) :
    Step ⟨s, m⟩ .argStart ⟨.statement, .argStart :: m⟩
  | argEnd {s m} (h : s.Free) : Step ⟨s, .argStart :: m⟩ .argEnd ⟨.arguments, m⟩
  | paramKey {m} : Step ⟨.key, .paramStart :: m⟩ .paramKey ⟨.keyed, .paramStart :: m⟩
  | paramAssign {m} : Step ⟨.keyed, .paramStart :: m⟩ .paramAssign ⟨.statement, .paramStart :: m⟩
  | paramSep {s m} (h : s = .keyed ∨ s.Free) :
    Step ⟨s, .paramStart :: m⟩ .paramSep ⟨.key, .paramStart :: m⟩
  | paramEnd {s m} (h : s = .key ∨ s = .keyed ∨ s.Free) :
    Step ⟨s, .paramStart :: m⟩ .paramEnd ⟨.arguments, m⟩

section

variable {g g' : Stand} {m : List TokenKind} {k : TokenKind}

theorem Step.of_name (h : Step ⟨.name, m⟩ k g') : k = .commandName ∧ g' = ⟨.heading, m⟩ := by
  cases h <;> simp_all [Spot.Free]

theorem Step.of_key (h : Step ⟨.key, .paramStart :: m⟩ k g') :
    k = .paramKey ∧ g' = ⟨.keyed, .paramStart :: m⟩ ∨ k = .paramEnd ∧ g' = ⟨.arguments, m⟩ := by
  cases h <;> simp_all [Spot.Free]

theorem Step.of_keyed (h : Step ⟨.keyed, .paramStart :: m⟩ k g') :
    k = .paramAssign ∧ g' = ⟨.statement, .paramStart :: m⟩ ∨
      k = .paramSep ∧ g' = ⟨.key, .paramStart :: m⟩ ∨ k = .paramEnd ∧ g' = ⟨.arguments, m⟩ := by
  cases h <;> simp_all [Spot.Free]

theorem Step.of_argStart (h : Step g .argStart g') :
    (g.spot = .heading ∨ g.spot = .arguments) ∧ g' = ⟨.statement, .argStart :: g.marks⟩ := by
  cases h with
  | argStart h => exact ⟨h, rfl⟩

theorem Step.of_paramStart (h : Step g .paramStart g') :
    g.spot = .heading ∧ g' = ⟨.key, .paramStart :: g.marks⟩ := by
  cases h
  exact ⟨rfl, rfl⟩

end

/-- Which kinds of tokens may follow each other from a place to another. -/
inductive Run : Stand → List TokenKind → Stand → Prop
  | nil (g : Stand) : Run g [] g
  | cons {g g' g'' : Stand} {k : TokenKind} {ks : List TokenKind} (h : Step g k g')
    (hr : Run g' ks g'') : Run g (k :: ks) g''

theorem Run.append {g g' g'' : Stand} {ks ks' : List TokenKind} (h : Run g ks g')
    (h' : Run g' ks' g'') : Run g (ks ++ ks') g'' := by
  induction h with
  | nil => exact h'
  | cons hs _ ih => exact .cons hs (ih h')

end Stand

namespace Text

theorem scan_stop {σ : Type} (step : σ → Text → Option (Nat × σ)) (n : Nat) (s : σ) (t : Text) :
    (scan step n s t).2 = [] ∨ ∃ s', step s' (scan step n s t).2 = none := by
  fun_induction scan step n s t with
  | case1 => exact .inl rfl
  | case2 _ _ _ _ _ _ _ ih => simp_all
  | case3 s c r h => exact .inr ⟨s, h⟩
  | case4 _ _ _ _ _ _ _ _ _ ih => simp_all

end Text

theorem Token.map_kind_place (p : Position) (ls : List Lexeme) :
    (place p ls).map Token.kind = ls.map Lexeme.kind := by
  induction ls generalizing p with
  | nil => rfl
  | cons l ls ih => simp only [place, List.map_cons, ih]

namespace Delimiters

variable (d : Delimiters)

/-- The kinds of the tokens that a row of pieces is cut into. -/
def kinds (ps : List Piece) : List TokenKind := (d.lexemes ps).map Lexeme.kind

@[simp] theorem kinds_nil : d.kinds [] = [] := rfl

@[simp] theorem kinds_lexeme (kind : TokenKind) (t : Text) (ps : List Piece) :
    d.kinds (.lexeme kind t :: ps) = kind :: d.kinds ps := rfl

@[simp] theorem kinds_slice (s : Text) (ps : List Piece) :
    d.kinds (.slice s :: ps) = (d.lex s).lexemes.map Lexeme.kind ++ d.kinds ps := by
  simp [kinds, lexemes, lexPiece]

@[simp] theorem kinds_append (ps qs : List Piece) :
    d.kinds (ps ++ qs) = d.kinds ps ++ d.kinds qs := by
  simp [kinds, lexemes]

/-- The tokens of `s` may stand wherever a statement may begin, and one may begin after them. -/
def Settled (s : Text) : Prop :=
  ∀ spot m, spot.Free → ∃ spot', spot'.Free ∧
    Stand.Run ⟨spot, m⟩ ((d.lex s).lexemes.map Lexeme.kind) ⟨spot', m⟩

/-- A list of parameters stands before `t` at a key, or after an entry that ends there. -/
def AtEntry (spot : Spot) (t : Text) : Prop :=
  spot = .key ∨ (spot = .keyed ∨ spot.Free) ∧ (t = [] ∨ d.paramEnd.startsAt t = true)

theorem cutKey_stop (t : Text) :
    (d.cutKey t).2 = [] ∨ d.paramAssign.startsAt (d.cutKey t).2 = true ∨
      d.paramSep.startsAt (d.cutKey t).2 = true ∨ d.paramEnd.startsAt (d.cutKey t).2 = true := by
  unfold cutKey
  simpa only [Bool.or_eq_true, or_assoc] using Text.cutWhere_stop (fun r =>
    d.paramAssign.startsAt r || d.paramSep.startsAt r || d.paramEnd.startsAt r) t

theorem cutValue_stop (t : Text) :
    (d.cutValue t).2 = [] ∨ d.paramSep.startsAt (d.cutValue t).2 = true ∨
      d.paramEnd.startsAt (d.cutValue t).2 = true := by
  unfold cutValue
  rcases Text.scan_stop _ 0 0 t with h | ⟨depth, h⟩
  · exact .inl h
  · right
    split at h
    · cases h
    · cases depth with
      | zero =>
        dsimp only at h
        split at h
        · next hstop => exact Bool.or_eq_true_iff.1 hstop
        · cases h
      | succ n =>
        dsimp only at h
        split at h <;> cases h

theorem run_paramValue {t : Text} (m : List TokenKind)
    (hs : ∀ s, .slice s ∈ (d.paramValue t).pieces → d.Settled s)
    (ht : t = [] ∨ d.paramAssign.startsAt t = true ∨ d.paramSep.startsAt t = true ∨
      d.paramEnd.startsAt t = true) :
    ∃ spot, (spot = .keyed ∨ spot.Free) ∧
      ((d.paramValue t).rest = [] ∨ d.paramSep.startsAt (d.paramValue t).rest = true ∨
        d.paramEnd.startsAt (d.paramValue t).rest = true) ∧
      Stand.Run ⟨.keyed, .paramStart :: m⟩ (d.kinds (d.paramValue t).pieces)
        ⟨spot, .paramStart :: m⟩ := by
  by_cases ha : d.paramAssign.startsAt t = true
  · simp only [paramValue, ha, if_true] at hs ⊢
    obtain ⟨spot, hfree, hrun⟩ := hs (d.cutValue (t.drop d.paramAssign.length)).1 (by simp)
      .statement (.paramStart :: m) trivial
    refine ⟨spot, .inr hfree, d.cutValue_stop _, ?_⟩
    simpa using Stand.Run.cons .paramAssign hrun
  · refine ⟨.keyed, .inl rfl, ?_, ?_⟩
    · simpa [paramValue, ha] using ht
    · simpa [paramValue, ha] using Stand.Run.nil _

theorem run_param {t : Text} (m : List TokenKind)
    (hs : ∀ s, .slice s ∈ (d.param t).pieces → d.Settled s) :
    ∃ spot, d.AtEntry spot (d.param t).rest ∧
      Stand.Run ⟨.key, .paramStart :: m⟩ (d.kinds (d.param t).pieces) ⟨spot, .paramStart :: m⟩ := by
  obtain ⟨spot, hspot, hrest, hrun⟩ := d.run_paramValue m
    (fun s h => hs s (by simp [param, Cut.after, h])) (d.cutKey_stop t)
  have hkeyed := Stand.Run.cons .paramKey hrun
  by_cases hsep : d.paramSep.startsAt (d.paramValue (d.cutKey t).2).rest = true
  · refine ⟨.key, .inl rfl, ?_⟩
    simpa [param, optional, hsep, Cut.after] using
      hkeyed.append (.cons (.paramSep hspot) (.nil _))
  · refine ⟨spot, .inr ⟨hspot, ?_⟩, ?_⟩
    · simpa [param, optional, hsep, Cut.after] using hrest
    · simpa [param, optional, hsep, Cut.after] using hkeyed

theorem run_params {t : Text} {spot : Spot} (m : List TokenKind) (hspot : d.AtEntry spot t)
    (hc : (d.params t).cause = none) (hs : ∀ s, .slice s ∈ (d.params t).pieces → d.Settled s) :
    Stand.Run ⟨spot, .paramStart :: m⟩ (d.kinds (d.params t).pieces) ⟨.arguments, m⟩ := by
  fun_induction params d t generalizing spot with
  | case1 => cases hc
  | case2 t _ he =>
    refine .cons (.paramEnd ?_) (.nil _)
    rcases hspot with h | ⟨h | h, -⟩ <;> simp [h]
  | case3 t hne he p =>
    rename_i ih
    obtain rfl : spot = .key := by
      rcases hspot with h | ⟨-, h | h⟩
      · exact h
      · exact absurd h hne
      · exact absurd h he
    obtain ⟨spot', hspot', hrun⟩ :=
      d.run_param (t := t) m fun s h => hs s (by simp [Cut.after, p, h])
    have hrest := ih hspot' hc fun s h => hs s (by simp [Cut.after, h])
    simpa [Cut.after] using hrun.append hrest

theorem run_paramList {t : Text} (m : List TokenKind) (hc : (d.paramList t).cause = none)
    (hs : ∀ s, .slice s ∈ (d.paramList t).pieces → d.Settled s) :
    ∃ spot, (spot = .heading ∨ spot = .arguments) ∧
      Stand.Run ⟨.heading, m⟩ (d.kinds (d.paramList t).pieces) ⟨spot, m⟩ := by
  unfold paramList at hc hs ⊢
  split at hc <;> rename_i h
  · simp only [h, if_true] at hs ⊢
    have hrun := d.run_params m (.inl rfl) hc fun s hm => hs s (by simp [Cut.after, hm])
    exact ⟨.arguments, .inr rfl, .cons .paramStart hrun⟩
  · simp only [h, Bool.false_eq_true, if_false]
    exact ⟨.heading, .inl rfl, .nil _⟩

theorem run_arguments {t : Text} {spot : Spot} (m : List TokenKind)
    (hspot : spot = .heading ∨ spot = .arguments)
    (hs : ∀ s, .slice s ∈ (d.arguments t).pieces → d.Settled s) :
    ∃ spot', (spot' = .heading ∨ spot' = .arguments) ∧
      Stand.Run ⟨spot, m⟩ (d.kinds (d.arguments t).pieces) ⟨spot', m⟩ := by
  fun_induction arguments d t generalizing spot with
  | case1 t a r _ ih =>
    obtain ⟨inner, hinner, hrun⟩ := hs a (by simp [Cut.after]) .statement (.argStart :: m) trivial
    obtain ⟨spot', hspot', hrest⟩ := ih (.inr rfl) fun s h => hs s (by simp [Cut.after, h])
    refine ⟨spot', hspot', ?_⟩
    simpa [Cut.after] using
      Stand.Run.cons (.argStart hspot) (hrun.append (.cons (.argEnd hinner) hrest))
  | case2 => exact ⟨spot, hspot, .nil _⟩

theorem run_command {t : Text} (m : List TokenKind) (hc : (d.command t).cause = none)
    (hs : ∀ s, .slice s ∈ (d.command t).pieces → d.Settled s) :
    ∃ spot, spot.Free ∧ Stand.Run ⟨.name, m⟩ (d.kinds (d.command t).pieces) ⟨spot, m⟩ := by
  simp only [command, Cut.after, Cut.andThen] at hc hs ⊢
  split at hc <;> rename_i hlist
  · rw [hlist] at hc
    cases hc
  · simp only [hlist] at hs ⊢
    obtain ⟨spot, hspot, hrun⟩ := d.run_paramList m hlist fun s h => hs s (by simp [h])
    obtain ⟨spot', hspot', hrest⟩ :=
      d.run_arguments (t := (d.paramList (d.cutName t).2).rest) m hspot
        fun s h => hs s (by simp [h])
    refine ⟨spot', by rcases hspot' with rfl | rfl <;> trivial, ?_⟩
    simpa using Stand.Run.cons .commandName (hrun.append hrest)

theorem run_segment {t : Text} {spot : Spot} (m : List TokenKind) (hspot : spot.Free)
    (hc : (d.segment t).cause = none) (hs : ∀ s, .slice s ∈ (d.segment t).pieces → d.Settled s) :
    ∃ spot', spot'.Free ∧ Stand.Run ⟨spot, m⟩ (d.kinds (d.segment t).pieces) ⟨spot', m⟩ := by
  unfold segment at hc hs ⊢
  split at hc <;> rename_i hcmd
  · simp only [hcmd, if_true] at hs ⊢
    obtain ⟨spot', hspot', hrun⟩ :=
      d.run_command m hc fun s h => hs s (by simp [Cut.after, h])
    exact ⟨spot', hspot', .cons (.escape hspot) hrun⟩
  · simp only [hcmd, Bool.false_eq_true, if_false]
    split at hc <;> rename_i he
    · simp only [he, if_true, expression] at hc ⊢
      split at hc <;> rename_i hend
      · simp only [hend, if_true]
        exact ⟨.statement, trivial, .cons (.expression hspot) (.nil _)⟩
      · cases hc
    · simp only [he, Bool.false_eq_true, if_false]
      exact ⟨.statement, trivial, .cons (.raw hspot) (.nil _)⟩

theorem run_pieces {t : Text} {spot : Spot} (m : List TokenKind) (hspot : spot.Free)
    (hc : (d.pieces t).cause = none) (hs : ∀ s, .slice s ∈ (d.pieces t).pieces → d.Settled s) :
    ∃ spot', spot'.Free ∧ Stand.Run ⟨spot, m⟩ (d.kinds (d.pieces t).pieces) ⟨spot', m⟩ := by
  fun_induction pieces d t generalizing spot with
  | case1 => exact ⟨spot, hspot, .nil _⟩
  | case2 t _ hseg ih =>
    obtain ⟨mid, hmid, hrun⟩ := d.run_segment m hspot hseg fun s h => hs s (by simp [Cut.after, h])
    obtain ⟨spot', hspot', hrest⟩ := ih hmid hc fun s h => hs s (by simp [Cut.after, h])
    exact ⟨spot', hspot', by simpa [Cut.after] using hrun.append hrest⟩
  | case3 t _ hseg => exact absurd hc hseg

theorem settled_of_lex {t : Text} (h : (d.lex t).cause = none) : d.Settled t := by
  induction t using d.lex_induction with
  | h t ih =>
    intro spot m hspot
    rw [lex_eq] at h ⊢
    obtain ⟨hc, hs, hl⟩ := d.lexPieces_of_cause_eq_none h
    rw [hl]
    exact d.run_pieces m hspot hc fun s hm => ih s hm (hs s hm)

end Delimiters

/-- The tokens of a template follow each other as statements do, and leave nothing open. -/
theorem run_tokenize {d : Delimiters} {t : Text} {tokens : List Token}
    (h : tokenize d t = .ok tokens) :
    ∃ spot, spot.Free ∧ Stand.Run ⟨.statement, []⟩ (tokens.map Token.kind) ⟨spot, []⟩ := by
  obtain ⟨hc, rfl⟩ := tokenize_eq_ok_iff.1 h
  rw [Token.map_kind_place]
  exact d.settled_of_lex hc .statement [] trivial

end Stencil
