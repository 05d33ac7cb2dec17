import Stencil.Proofs.Extraction
import Stencil.Proofs.Path
import Stencil.Proofs.Provenance

/-! What is left of a template when its blocks are taken out keeps the lines of the template, where
no block contains a line break. Every place in it came from a place of the template in the same
row. -/
namespace Stencil

namespace Text

theorem lines_induction {P : Text → Prop} (last : ∀ line, '\n' ∉ line → P line)
    (more : ∀ line rest, '\n' ∉ line → P rest → P (line ++ '\n' :: rest)) (t : Text) : P t := by
  induction hlength : t.length using Nat.strongRecOn generalizing t with
  | ind n ih =>
    cases hcut : t.cutAt? '\n' with
    | none => exact last t (cutAt?_eq_none_iff.1 hcut)
    | some cut =>
      obtain ⟨rfl, hline⟩ := cutAt?_eq_some_iff.1 hcut
      refine more _ _ hline (ih _ ?_ _ rfl)
      simp only [List.length_append, List.length_cons] at hlength
      omega

theorem splitOn_of_not_mem {mark : Char} {t : Text} (h : mark ∉ t) : t.splitOn mark = [t] := by
  rw [Path.splitOn_eq, List.splitOn_eq_singleton h]

theorem splitOn_append_cons {mark : Char} {t : Text} (h : mark ∉ t) (r : Text) :
    (t ++ mark :: r).splitOn mark = t :: r.splitOn mark := by
  rw [Path.splitOn_eq, Path.splitOn_eq, List.splitOn_append_cons_self_of_not_mem h]

end Text

namespace MetaBlock

/-- A text without its blocks. -/
def strip (t : Text) : Text := (parts t).flatMap Part.rest

/-- No block that is found in a text contains a line break. -/
def InLines (t : Text) : Prop := ∀ body, .block body ∈ parts t → '\n' ∉ body

section Parts

variable {t line rest : Text} {ps qs : List Part}

theorem newline_not_mem_opening : '\n' ∉ opening := by decide

theorem newline_not_mem_source {body : Text} (h : '\n' ∉ body) :
    '\n' ∉ (Part.block body).source := by
  simp [Part.source, newline_not_mem_opening, h]

theorem flatMap_source (t : Text) : (parts t).flatMap Part.source = t := by
  induction t using parts.induct with
  | case1 => rw [parts, List.flatMap_nil]
  | case2 c r body after hblock ih =>
    rw [parts_of_block? hblock, List.flatMap_cons, ih, eq_append_of_block? hblock]
  | case3 c r hnone ih =>
    rw [parts_cons_of_block?_eq_none hnone, List.flatMap_cons, ih]
    rfl

theorem rest_subset_source (ps : List Part) :
    ps.flatMap Part.rest ⊆ ps.flatMap Part.source := by
  intro c hc
  obtain ⟨p, hp, hc⟩ := List.mem_flatMap.1 hc
  refine List.mem_flatMap.2 ⟨p, hp, ?_⟩
  cases p with
  | plain c' => exact hc
  | block body => cases hc

theorem block?_append {body after : Text} (h : block? t = some (body, after)) (r : Text) :
    block? (t ++ r) = some (body, after ++ r) := by
  obtain ⟨rfl, hbody⟩ := block?_eq_some_iff.1 h
  exact block?_eq_some_iff.2 ⟨by simp, hbody⟩

theorem block?_of_append {body after : Text}
    (h : block? (line ++ '\n' :: rest) = some (body, after)) (hbody : '\n' ∉ body) :
    ∃ after', block? line = some (body, after') := by
  obtain ⟨heq, hend⟩ := block?_eq_some_iff.1 h
  rw [List.nil_append] at heq
  obtain ⟨more, rfl, -⟩ | ⟨more, hsource, -⟩ := append_eq_append_cons heq.symm
  · exact ⟨more, block?_eq_some_iff.2 ⟨rfl, hend⟩⟩
  · have hbreak : '\n' ∈ (Part.block body).source := hsource ▸ by simp
    exact absurd hbreak (newline_not_mem_source hbody)

/-- No block reaches over the end of a line. -/
theorem parts_append_break (hline : '\n' ∉ line) (h : InLines (line ++ '\n' :: rest)) :
    parts (line ++ '\n' :: rest) = parts line ++ .plain '\n' :: parts rest := by
  induction line using parts.induct with
  | case1 =>
    have hnone : block? ('\n' :: rest) = none := rfl
    rw [parts, List.nil_append, List.nil_append, parts_cons_of_block?_eq_none hnone]
  | case2 c r body after hblock ih =>
    have hmore := block?_append hblock ('\n' :: rest)
    rw [eq_append_of_block? hblock, List.mem_append, not_or] at hline
    rw [parts_of_block? hmore, parts_of_block? hblock, ih hline.2 fun b hb => h b ?_,
      List.cons_append]
    rw [parts_of_block? hmore]
    exact List.mem_cons_of_mem _ hb
  | case3 c r hnone ih =>
    have hmore : block? (c :: (r ++ '\n' :: rest)) = none := by
      refine Option.eq_none_iff_forall_not_mem.2 fun found hblock => ?_
      obtain ⟨body, after⟩ := found
      have hmem : Part.block body ∈ parts (c :: r ++ '\n' :: rest) := by
        rw [List.cons_append, parts_of_block? hblock]
        exact List.mem_cons_self
      have hline : ∃ after', block? (c :: r) = some (body, after') :=
        block?_of_append hblock (h body hmem)
      obtain ⟨after', hafter⟩ := hline
      rw [hnone] at hafter
      cases hafter
    have hr : InLines (r ++ '\n' :: rest) := fun b hb => h b (by
      rw [List.cons_append, parts_cons_of_block?_eq_none hmore]
      exact List.mem_cons_of_mem _ hb)
    rw [List.cons_append, parts_cons_of_block?_eq_none hmore, parts_cons_of_block?_eq_none hnone,
      ih (not_or.1 (mt List.mem_cons.2 hline)).2 hr, List.cons_append]

theorem InLines.of_append (hline : '\n' ∉ line) (h : InLines (line ++ '\n' :: rest)) :
    InLines rest := by
  intro body hbody
  refine h body ?_
  rw [parts_append_break hline h]
  exact List.mem_append_right _ (List.mem_cons_of_mem _ hbody)

end Parts

section Lines

variable {t line rest : Text}

theorem newline_not_mem_strip (h : '\n' ∉ line) : '\n' ∉ strip line := by
  rw [← flatMap_source line] at h
  exact fun hmem => h (rest_subset_source _ hmem)

theorem strip_append_break (hline : '\n' ∉ line) (h : InLines (line ++ '\n' :: rest)) :
    strip (line ++ '\n' :: rest) = strip line ++ '\n' :: strip rest := by
  rw [strip, parts_append_break hline h, List.flatMap_append, List.flatMap_cons]
  rfl

/-- Each line is left as it would be alone. -/
theorem splitOn_strip (h : InLines t) : (strip t).splitOn '\n' = (t.splitOn '\n').map strip := by
  induction t using Text.lines_induction with
  | last line hline =>
    rw [Text.splitOn_of_not_mem hline, Text.splitOn_of_not_mem (newline_not_mem_strip hline)]
    rfl
  | more line rest hline ih =>
    rw [strip_append_break hline h, Text.splitOn_append_cons (newline_not_mem_strip hline),
      Text.splitOn_append_cons hline, ih (h.of_append hline), List.map_cons]

theorem blocksFrom_append (p : Position) (ps qs : List Part) : blocksFrom p (ps ++ qs) =
    blocksFrom p ps ++ blocksFrom (p.after (ps.flatMap Part.source)) qs := by
  induction ps generalizing p with
  | nil => rfl
  | cons part ps ih =>
    cases part with
    | plain c => exact ih (p.next c)
    | block body =>
      rw [List.cons_append, blocksFrom, ih, blocksFrom, List.flatMap_cons, Position.after_append,
        List.cons_append]

/-- The blocks of a text are those of its lines, each in its row. -/
theorem blocksFrom_lines (h : InLines t) (row : Nat) : blocksFrom ⟨row, 0⟩ (parts t) =
    ((t.splitOn '\n').zipIdx row).flatMap fun (line, row) => blocksFrom ⟨row, 0⟩ (parts line) := by
  induction t using Text.lines_induction generalizing row with
  | last line hline => simp [Text.splitOn_of_not_mem hline]
  | more line rest hline ih =>
    rw [parts_append_break hline h, blocksFrom_append, flatMap_source,
      Position.after_of_not_mem hline, Text.splitOn_append_cons hline, List.zipIdx_cons,
      List.flatMap_cons, ← ih (h.of_append hline) (row + 1)]
    rfl

end Lines

section Places

variable {t source : Text} {p : Position} {ps qs : List Part}

/-- A place in a text without its blocks, and the place that it came from, past the blocks there. -/
def CameFrom (source : Text) (p q : Position) : Prop :=
  ∃ before after, parts source = before ++ after ∧ (∀ body, after.head? ≠ some (.block body)) ∧
    p = .endOf (before.flatMap Part.rest) ∧ q = .endOf (before.flatMap Part.source)

/-- A place in a text without its blocks came from its row, where only the blocks before it moved
it. -/
def InRow (source : Text) (p : Position) : Prop :=
  ∃ q line before after, CameFrom source p q ∧ q.row = p.row ∧
    (source.splitOn '\n')[p.row]? = some line ∧ parts line = before ++ after ∧
    p.col = (before.flatMap Part.rest).length ∧ q.col = (before.flatMap Part.source).length ∧
    ((∀ body, .block body ∉ parts line) → q = p)

theorem endOf_append_break {line : Text} (h : '\n' ∉ line) (rest : Text) :
    Position.endOf (line ++ '\n' :: rest) =
      ⟨(Position.endOf rest).row + 1, (Position.endOf rest).col⟩ := by
  rw [← Position.start_after, Position.after_append, Position.after_of_not_mem h]
  exact (Position.after_of_col_eq_zero 1 rest).trans (by rw [Nat.add_comm])

theorem endOf_of_not_mem (h : '\n' ∉ t) : Position.endOf t = ⟨0, t.length⟩ := by
  rw [← Position.start_after, Position.after_of_not_mem h]
  simp [Position.start]

/-- Some parts of a text are the lines before one and the beginning of that one. -/
def Divides (lines : List Text) (ps : List Part) : Prop :=
  ∃ line before after row, lines[row]? = some line ∧ parts line = before ++ after ∧
    Position.endOf (ps.flatMap Part.rest) = ⟨row, (before.flatMap Part.rest).length⟩ ∧
    Position.endOf (ps.flatMap Part.source) = ⟨row, (before.flatMap Part.source).length⟩

theorem divides_first {line : Text} (lines : List Text) (hline : '\n' ∉ line)
    (h : parts line = ps ++ qs) : Divides (line :: lines) ps := by
  rw [← flatMap_source line, h, List.flatMap_append, List.mem_append, not_or] at hline
  have hrest : '\n' ∉ ps.flatMap Part.rest := fun hmem => hline.1 (rest_subset_source _ hmem)
  exact ⟨line, ps, qs, 0, rfl, h, endOf_of_not_mem hrest, endOf_of_not_mem hline.1⟩

theorem Divides.later {line : Text} {lines : List Text} (hline : '\n' ∉ line)
    (h : Divides lines ps) : Divides (line :: lines) (parts line ++ .plain '\n' :: ps) := by
  obtain ⟨line', before, after, row, hrow, hparts, hrest, hsource⟩ := h
  refine ⟨line', before, after, row + 1, hrow, hparts, ?_, ?_⟩
  · have hbreak := endOf_append_break (newline_not_mem_strip hline) (ps.flatMap Part.rest)
    rw [hrest] at hbreak
    rwa [List.flatMap_append]
  · have hbreak := endOf_append_break hline (ps.flatMap Part.source)
    rw [hsource] at hbreak
    rwa [List.flatMap_append, flatMap_source]

theorem divides_of_parts (h : InLines source) (hparts : parts source = ps ++ qs) :
    Divides (source.splitOn '\n') ps := by
  induction source using Text.lines_induction generalizing ps with
  | last line hline =>
    rw [Text.splitOn_of_not_mem hline]
    exact divides_first [] hline hparts
  | more line rest hline ih =>
    rw [Text.splitOn_append_cons hline]
    rw [parts_append_break hline h] at hparts
    obtain ⟨more, hfirst, -⟩ | ⟨later, rfl, hlater⟩ := append_eq_append_cons hparts.symm
    · exact divides_first _ hline hfirst
    · exact (ih (h.of_append hline) hlater).later hline

theorem flatMap_rest_eq_source (h : ∀ body, .block body ∉ ps) :
    ps.flatMap Part.rest = ps.flatMap Part.source := by
  refine List.flatMap_congr fun part hpart => ?_
  cases part with
  | plain c => rfl
  | block body => exact absurd hpart (h body)

theorem exists_parts_of_flatMap_rest {before after : Text}
    (h : before ++ after = ps.flatMap Part.rest) : ∃ first others, ps = first ++ others ∧
      (∀ body, others.head? ≠ some (.block body)) ∧ first.flatMap Part.rest = before := by
  induction ps generalizing before with
  | nil => exact ⟨[], [], rfl, nofun, (List.append_eq_nil_iff.1 h).1.symm⟩
  | cons part ps ih =>
    cases part with
    | plain c =>
      cases before with
      | nil => exact ⟨[], _, rfl, nofun, rfl⟩
      | cons c' before =>
        obtain ⟨rfl, htail⟩ := List.cons.inj h
        obtain ⟨first, others, rfl, hhead, rfl⟩ := ih htail
        exact ⟨.plain c' :: first, others, rfl, hhead, rfl⟩
    | block body =>
      obtain ⟨first, others, rfl, hhead, rfl⟩ := ih h
      exact ⟨.block body :: first, others, rfl, hhead, rfl⟩

/-- Every place in a text without its blocks came from the same row. -/
theorem inRow_of_placeOf (h : InLines source) (hp : PlaceOf (strip source) p) :
    InRow source p := by
  obtain ⟨_, ⟨after, hbefore⟩, rfl⟩ := hp
  obtain ⟨ps, qs, hparts, hhead, rfl⟩ := exists_parts_of_flatMap_rest hbefore
  obtain ⟨line, before, after, row, hrow, hline, hrest, hsource⟩ := divides_of_parts h hparts
  refine ⟨_, line, before, after, ⟨ps, qs, hparts, hhead, rfl, rfl⟩, ?_, ?_, hline, ?_, ?_, ?_⟩
  · rw [hrest, hsource]
  · rw [hrest, hrow]
  · rw [hrest]
  · rw [hsource]
  · intro hnone
    rw [hrest, hsource, flatMap_rest_eq_source fun body hbody => hnone body ?_]
    exact hline ▸ List.mem_append_left _ hbody

end Places

end MetaBlock

end Stencil
