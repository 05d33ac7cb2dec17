import Stencil.Node.Parser

/-! Reading tokens as a program, with statements in front that are complete. They take no part in
what is read, and stand unchanged in front of it. -/
namespace Stencil

namespace Reading

/-- The levels and the statements with `pre` in front of all statements of the program. -/
def ontoLevels (pre : List Node) : List Level → List Node → List Level × List Node
  | [], body => ([], pre ++ body)
  | ⟨before, o, slot⟩ :: levels, body =>
    (⟨(ontoLevels pre levels before).2, o, slot⟩ :: (ontoLevels pre levels before).1, body)

variable (d : Delimiters) (pre : List Node) (r : Reading)

/-- The reading with `pre` in front of all statements of the program. -/
def onto : Reading :=
  { r with
    levels := (ontoLevels pre r.levels r.body).1
    body := (ontoLevels pre r.levels r.body).2 }

theorem onto_root (mode : Mode) (l : Position) :
    onto pre ⟨[], [], mode, l⟩ = ⟨[], pre, mode, l⟩ := by
  simp [onto, ontoLevels]

theorem add_onto (n : Node) : (r.onto pre).add n = (r.add n).onto pre := by
  obtain ⟨levels, body, mode, last⟩ := r
  cases levels with
  | nil => simp [onto, add, ontoLevels]
  | cons level levels => rfl

theorem close_onto (t : Token) : (r.onto pre).close t = (r.close t).map (onto pre) := by
  obtain ⟨levels, body, mode, last⟩ := r
  match levels with
  | [] => rfl
  | ⟨before, o, .argument opened⟩ :: levels =>
    simp only [close, onto, ontoLevels]
    split <;> rfl
  | ⟨before, o, .value params key assigned⟩ :: levels =>
    simp only [close, afterEntry, onto, ontoLevels]
    split <;> rfl

theorem statement_onto (t : Token) :
    (r.onto pre).statement d t = (r.statement d t).map (onto pre) := by
  unfold statement
  split
  · simp only [add_onto]; rfl
  · simp only [add_onto]; rfl
  · rfl
  · exact close_onto pre r t

theorem commentLine_onto (p : Position) (n : Nat) (text : Text) (t : Token) :
    (r.onto pre).commentLine d p n text t = (r.commentLine d p n text t).map (onto pre) := by
  unfold commentLine
  dsimp only
  split
  · rw [add_onto]; exact close_onto pre _ t
  · rw [add_onto]; exact close_onto pre _ t
  · rw [add_onto]; exact close_onto pre _ t
  · rfl
  · rfl
  · rfl
  · rfl
  · split
    · rfl
    · simp only [add_onto]; rfl
  · rfl

theorem argument_onto (o : Opening) (t : Token) :
    (r.onto pre).argument d o t = (r.argument d o t).map (onto pre) := by
  unfold argument
  split
  · split <;> rfl
  · cases o.node with
    | error => rfl
    | ok n =>
      simp only [add_onto]
      exact statement_onto d pre (r.add n) t

/-- The statements in front take no part in reading. -/
theorem take_onto (t : Token) : (r.onto pre).take d t = (r.take d t).map (onto pre) := by
  obtain ⟨levels, body, mode, last⟩ := r
  cases mode with
  | statements => exact statement_onto d pre ⟨levels, body, _, t.position⟩ t
  | name p =>
    simp only [take, onto]
    split
    · split <;> rfl
    · rfl
  | source p =>
    simp only [take, onto]
    split <;> rfl
  | comment p =>
    simp only [take, onto]
    split
    · rfl
    · exact commentLine_onto d pre ⟨levels, body, _, t.position⟩ p 0 [] t
  | line p n text => exact commentLine_onto d pre ⟨levels, body, _, t.position⟩ p n text t
  | kept opened n text as =>
    simp only [take, onto]
    split
    · cases as with
      | comment p => exact congrArg _ (add_onto pre ⟨levels, body, _, t.position⟩ _)
      | source p => exact congrArg _ (add_onto pre ⟨levels, body, _, t.position⟩ _)
      | argument o => rfl
    · rfl
    · rfl
    · rfl
  | named o =>
    simp only [take, onto]
    split
    · rfl
    · exact argument_onto d pre ⟨levels, body, _, t.position⟩ o t
  | arguments o => exact argument_onto d pre ⟨levels, body, _, t.position⟩ o t
  | key o params =>
    simp only [take, onto]
    split <;> rfl
  | keyed o params key =>
    simp only [take, onto]
    split
    · rfl
    · unfold afterEntry
      split <;> rfl

theorem take_last (l : Position) (t : Token) :
    Reading.take d { r with last := l } t = r.take d t := by
  obtain ⟨levels, body, mode, last⟩ := r
  cases mode <;> rfl

theorem complete_onto : (r.onto pre).complete.toOption = r.complete.toOption.map (pre ++ ·) := by
  obtain ⟨levels, body, mode, last⟩ := r
  match levels with
  | [] => rfl
  | ⟨_, _, .argument _⟩ :: _ => rfl
  | ⟨_, _, .value _ _ _⟩ :: _ => rfl

theorem complete_last (l : Position) :
    (complete { r with last := l }).toOption = r.complete.toOption := by
  obtain ⟨levels, body, mode, last⟩ := r
  match levels with
  | [] => rfl
  | ⟨_, _, .argument _⟩ :: _ => rfl
  | ⟨_, _, .value _ _ _⟩ :: _ => rfl

theorem finish_onto : (r.onto pre).finish.toOption = r.finish.toOption.map (pre ++ ·) := by
  have hadd : ∀ n, ((r.onto pre).add n).complete.toOption =
      (r.add n).complete.toOption.map (pre ++ ·) := fun n => by
    rw [add_onto, complete_onto]
  obtain ⟨levels, body, mode, last⟩ := r
  cases mode with
  | statements => exact complete_onto pre _
  | comment p => exact hadd _
  | line p n text => exact hadd _
  | named o | arguments o =>
    simp only [finish, onto]
    cases o.node with
    | error => rfl
    | ok n => exact hadd n
  | _ => rfl

theorem finish_last (l : Position) :
    (finish { r with last := l }).toOption = r.finish.toOption := by
  obtain ⟨levels, body, mode, last⟩ := r
  cases mode with
  | statements => exact complete_last _ l
  | comment p => exact complete_last (add ⟨levels, body, _, last⟩ _) l
  | line p n text => exact complete_last (add ⟨levels, body, _, last⟩ _) l
  | named o | arguments o =>
    simp only [finish]
    cases o.node with
    | error => rfl
    | ok n => exact complete_last (add ⟨levels, body, _, last⟩ n) l
  | _ => rfl

/-- The program that the tokens from here to the end are, if they are one. -/
def program? (tokens : List Token) : Option (List Node) :=
  (tokens.foldlM (·.take d) r >>= finish).toOption

theorem program?_cons {r' : Reading} {t : Token} (h : r.take d t = .ok r') (tokens : List Token) :
    r.program? d (t :: tokens) = r'.program? d tokens := by
  rw [program?, List.foldlM_cons, h]
  rfl

theorem program?_last (l : Position) (tokens : List Token) :
    program? d { r with last := l } tokens = r.program? d tokens := by
  cases tokens with
  | nil => exact finish_last r l
  | cons t tokens =>
    unfold program?
    rw [List.foldlM_cons, List.foldlM_cons, take_last]

theorem program?_onto (tokens : List Token) :
    (r.onto pre).program? d tokens = (r.program? d tokens).map (pre ++ ·) := by
  induction tokens generalizing r with
  | nil => exact finish_onto pre r
  | cons t tokens ih =>
    cases h : r.take d t with
    | error fault =>
      have h' : (r.onto pre).take d t = .error fault := by rw [take_onto, h]; rfl
      simp only [program?, List.foldlM_cons, h, h']
      rfl
    | ok r' =>
      have h' : (r.onto pre).take d t = .ok (r'.onto pre) := by rw [take_onto, h]; rfl
      rw [program?_cons d _ h, program?_cons d _ h', ih]

end Reading

theorem parse_eq_ok_iff {d : Delimiters} {tokens : List Token} {program : List Node} :
    parse d tokens = .ok program ↔ Reading.initial.program? d tokens = some program := by
  unfold parse Reading.program?
  cases tokens.foldlM (fun r t => r.take d t) Reading.initial >>= Reading.finish <;>
    simp [Except.toOption]

end Stencil
