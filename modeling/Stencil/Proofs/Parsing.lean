import Stencil.Proofs.Forming
import Stencil.Proofs.Grammar

/-! Reading the tokens of a template. What the reader holds open agrees at every token with the
marks that are open there, so that no token surprises it but a group that follows a group kept as
text. -/
namespace Stencil

/-- The marks open after a token of a kind, where `m` are open before it. -/
def marksAfter (m : List TokenKind) : TokenKind → List TokenKind
  | .argStart => .argStart :: m
  | .paramStart => .paramStart :: m
  | .argEnd | .paramEnd => m.tail
  | _ => m

/-- The marks of the arguments and lists of parameters open after tokens, innermost first. -/
def openMarks (tokens : List Token) : List TokenKind :=
  tokens.foldl (fun m t => marksAfter m t.kind) []

/-- How many groups are open inside a group after a token that does not end it. -/
def groupsAfter? (n : Nat) : TokenKind → Option Nat
  | .argStart => some (n + 1)
  | .argEnd => if n = 0 then none else some (n - 1)
  | _ => some n

/-- How many groups are open after tokens inside a group, unless they go beyond its end. -/
def groupsOpen? (tokens : List Token) : Option Nat :=
  tokens.foldlM (fun n t => groupsAfter? n t.kind) 0

/-- Among `tokens`, a command with one of the `names` begins under the marks `m`, and `back` stands
behind its name. -/
def HasCommand (names : List Text) (m : List TokenKind) (tokens back : List Token) : Prop :=
  ∃ front e n, tokens = front ++ e :: n :: back ∧ e.kind = .escape ∧ n.kind = .commandName ∧
    n.text ∈ names ∧ openMarks front = m

/-- The commands whose group is kept as text. They take one group. -/
def keptNames : List Text := [Heading.commentName, Heading.sourceName]

/-- The name of a source, at which no argument follows; `p` is where one is missing. -/
def LacksGroup (tokens : List Token) (found : Option TokenKind) (p : Position) : Prop :=
  ∃ m back, HasCommand [Heading.sourceName] m tokens back ∧ back.head?.map Token.kind = found ∧
    found ≠ some .argStart ∧ (back.head?.or tokens.getLast?).map Token.position = some p

/-- What reading says of an argument for which there is no command. -/
def strayGroup : List TokenKind → ParseCause
  | [] => .unexpected .argStart
  | .argStart :: _ => .expected .argEnd (some .argStart)
  | _ :: _ => .expected .paramEnd (some .argStart)

/-- A second group, at `p`, right after a group that is kept as text. -/
def HasSecondGroup (tokens : List Token) (cause : ParseCause) (p : Position) : Prop :=
  ∃ m opened group closed again back,
    HasCommand keptNames m tokens (opened :: (group ++ closed :: again :: back)) ∧
      opened.kind = .argStart ∧ groupsOpen? group = some 0 ∧ closed.kind = .argEnd ∧
      again.kind = .argStart ∧ p = again.position ∧ cause = strayGroup m

/-- The faults that reading the tokens of a template may end in. -/
def Excused (tokens : List Token) (fault : Fault ParseCause) : Prop :=
  match fault.cause with
  | .argumentCount _ _ _ | .parameterCount _ _ | .invalidArm _ => True
  | .expected .argStart found => LacksGroup tokens found fault.position
  | cause => HasSecondGroup tokens cause fault.position

theorem openMarks_append_singleton (tokens : List Token) (t : Token) :
    openMarks (tokens ++ [t]) = marksAfter (openMarks tokens) t.kind := by
  simp [openMarks]

theorem Stand.Step.marks_eq {g g' : Stand} {k : TokenKind} (h : Step g k g') :
    g'.marks = marksAfter g.marks k := by
  cases h <;> rfl

theorem HasCommand.append {names : List Text} {m : List TokenKind} {tokens back : List Token}
    (h : HasCommand names m tokens back) (more : List Token) :
    HasCommand names m (tokens ++ more) (back ++ more) := by
  obtain ⟨front, e, n, rfl, he, hn, hname, hm⟩ := h
  exact ⟨front, e, n, by simp, he, hn, hname, hm⟩

theorem HasCommand.mono {names names' : List Text} {m : List TokenKind} {tokens back : List Token}
    (h : HasCommand names m tokens back) (hn : names ⊆ names') :
    HasCommand names' m tokens back := by
  obtain ⟨front, e, n, ht, he, hk, hname, hm⟩ := h
  exact ⟨front, e, n, ht, he, hk, hn hname, hm⟩

theorem groupsOpen?_append_singleton (group : List Token) (t : Token) :
    groupsOpen? (group ++ [t]) = (groupsOpen? group).bind (groupsAfter? · t.kind) := by
  simp [groupsOpen?]

theorem Heading.eq_commentName {name : Text} (h : ofName name = .comment) : name = commentName := by
  unfold ofName at h
  split at h
  · assumption
  · split at h
    · cases h
    · split at h <;> cases h

theorem Heading.eq_sourceName {name : Text} (h : ofName name = .source) : name = sourceName := by
  unfold ofName at h
  split at h
  · cases h
  · split at h
    · assumption
    · split at h <;> cases h

theorem excused_strayGroup {tokens : List Token} {m : List TokenKind} {p : Position}
    (h : HasSecondGroup tokens (strayGroup m) p) : Excused tokens ⟨strayGroup m, p⟩ := by
  cases m with
  | nil => exact h
  | cons mark m => cases mark <;> exact h

namespace Opening

theorem Judges.excused {fault : Fault ParseCause} (h : Judges fault) (tokens : List Token) :
    Excused tokens fault := by
  unfold Judges at h
  unfold Excused
  split at h
  · next hc => simp [hc]
  · next hc => simp [hc]
  · next hc => simp [hc]
  · exact h.elim

end Opening

namespace Slot

/-- The mark that opens what a list of statements stands in. -/
def mark : Slot → TokenKind
  | .argument _ => .argStart
  | .value _ _ _ => .paramStart

end Slot

namespace Reading

/-- The marks of the levels that wait. -/
def marks (levels : List Level) : List TokenKind := levels.map fun l => l.slot.mark

/-- What a reading holds open agrees with the place it has come to, but for marks inside kept
text. -/
def Agrees (seen : List Token) (g : Stand) (r : Reading) : Prop :=
  match r.mode with
  | .statements => g.marks = marks r.levels ∧
    (g.spot = .statement ∨ g.spot = .arguments ∧ ∃ opened group closed,
      HasCommand keptNames g.marks seen (opened :: (group ++ [closed])) ∧
        opened.kind = .argStart ∧ groupsOpen? group = some 0 ∧ closed.kind = .argEnd)
  | .name _ => g = ⟨.name, marks r.levels⟩ ∧ ∃ front e, seen = front ++ [e] ∧ e.kind = .escape
  | .source _ => g = ⟨.heading, marks r.levels⟩ ∧
    HasCommand [Heading.sourceName] g.marks seen [] ∧
      seen.getLast?.map Token.position = some r.last
  | .comment _ => g = ⟨.heading, marks r.levels⟩ ∧
    HasCommand [Heading.commentName] g.marks seen []
  | .line _ depth _ => ∃ inner, g.marks = inner ++ marks r.levels ∧ inner.length = depth ∧
    (depth = 0 → g.spot.Free ∨ g.spot = .name)
  | .kept _ depth _ as => ∃ inner, g.marks = inner ++ .argStart :: marks r.levels ∧
    inner.count .argStart = depth ∧ ((∃ o, as = .argument o) ∨ ∃ opened group,
      HasCommand keptNames (marks r.levels) seen (opened :: group) ∧ opened.kind = .argStart ∧
        groupsOpen? group = some depth)
  | .named _ => g = ⟨.heading, marks r.levels⟩
  | .arguments _ => g = ⟨.arguments, marks r.levels⟩
  | .key _ _ => g = ⟨.key, .paramStart :: marks r.levels⟩
  | .keyed _ _ _ => g = ⟨.keyed, .paramStart :: marks r.levels⟩

variable {d : Delimiters} {r : Reading} (seen : List Token) {g g' : Stand} {t : Token}

theorem close_agrees (hs : Stand.Step g t.kind g') (hm : g.marks = marks r.levels)
    (hk : t.kind = .argEnd ∨ t.kind = .paramSep ∨ t.kind = .paramEnd) :
    Yields (Agrees (seen ++ [t]) g') (fun _ => False) (r.close t) := by
  obtain ⟨levels, body, mode, last⟩ := r
  generalize ht : t.kind = k at hs hk
  cases hs with
  | argEnd h =>
    match levels with
    | [] => simp [marks] at hm
    | ⟨before, o, .value params key assigned⟩ :: levels => simp [marks, Slot.mark] at hm
    | ⟨before, o, .argument opened⟩ :: levels =>
      simp only [marks, List.map_cons, List.cons.injEq] at hm
      simp [close, ht, Yields, Agrees, hm.2, marks, pure, Except.pure]
  | paramSep h =>
    match levels with
    | [] => simp [marks] at hm
    | ⟨before, o, .argument opened⟩ :: levels => simp [marks, Slot.mark] at hm
    | ⟨before, o, .value params key assigned⟩ :: levels =>
      simp only [marks, List.map_cons, List.cons.injEq] at hm
      simp [close, afterEntry, ht, Yields, Agrees, hm.2, marks, pure, Except.pure]
  | paramEnd h =>
    match levels with
    | [] => simp [marks] at hm
    | ⟨before, o, .argument opened⟩ :: levels => simp [marks, Slot.mark] at hm
    | ⟨before, o, .value params key assigned⟩ :: levels =>
      simp only [marks, List.map_cons, List.cons.injEq] at hm
      simp [close, afterEntry, ht, Yields, Agrees, hm.2, marks, pure, Except.pure]
  | _ => simp at hk

theorem statement_agrees (hs : Stand.Step g t.kind g') (hm : g.marks = marks r.levels)
    (hfree : g.spot.Free) (harg : t.kind ≠ .argStart) (hparam : t.kind ≠ .paramStart) :
    Yields (Agrees (seen ++ [t]) g') (fun _ => False) (r.statement d t) := by
  have hclose := close_agrees seen hs hm
  unfold statement
  generalize ht : t.kind = k at hs harg hparam hclose ⊢
  cases hs with
  | raw h => exact ⟨hm, .inl rfl⟩
  | expression h => exact ⟨hm, .inl rfl⟩
  | escape h => exact ⟨by rw [← hm], seen, t, rfl, ht⟩
  | argEnd h => exact hclose (.inl rfl)
  | paramSep h => exact hclose (.inr (.inl rfl))
  | paramEnd h => exact hclose (.inr (.inr rfl))
  | argStart h => exact absurd rfl harg
  | paramStart => exact absurd rfl hparam
  | commandName => exact hfree.elim
  | paramKey => exact hfree.elim
  | paramAssign => exact hfree.elim

theorem commentLine_agrees {p : Position} {depth : Nat} {text : Text}
    (hs : Stand.Step g t.kind g')
    (hline : Agrees seen g { r with mode := .line p depth text }) :
    Yields (Agrees (seen ++ [t]) g') (fun _ => False) (r.commentLine d p depth text t) := by
  obtain ⟨inner, hm, rfl, hspot⟩ := hline
  have hclose := close_agrees seen (r := r.add (commentNode text p)) hs
  unfold commentLine
  generalize ht : t.kind = k at hs hclose ⊢
  cases inner with
  | nil =>
    specialize hclose hm
    cases hs with
    | argEnd h => exact hclose (.inl rfl)
    | paramSep h => exact hclose (.inr (.inl rfl))
    | paramEnd h => exact hclose (.inr (.inr rfl))
    | raw h =>
      cases hcut : t.text.cutAt? '\n' with
      | none => simpa [hcut] using ⟨[], hm, rfl, fun _ => .inl trivial⟩
      | some cut => simpa [hcut] using ⟨hm, .inl rfl⟩
    | expression h => exact ⟨[], hm, rfl, fun _ => .inl trivial⟩
    | escape h => exact ⟨[], hm, rfl, fun _ => .inr rfl⟩
    | commandName => exact ⟨[], hm, rfl, fun _ => .inl trivial⟩
    | argStart h => exact ⟨[.argStart], by simpa using hm, rfl, fun h => by cases h⟩
    | paramStart => exact ⟨[.paramStart], by simpa using hm, rfl, fun h => by cases h⟩
    | paramKey => simp [Spot.Free] at hspot
    | paramAssign => simp [Spot.Free] at hspot
  | cons mark inner =>
    cases hs with
    | argEnd h =>
      obtain ⟨-, hm⟩ := List.cons.inj hm
      exact ⟨inner, hm, rfl, fun _ => .inl trivial⟩
    | paramEnd h =>
      obtain ⟨-, hm⟩ := List.cons.inj hm
      exact ⟨inner, hm, rfl, fun _ => .inl trivial⟩
    | argStart h => exact ⟨.argStart :: mark :: inner, by simpa using hm, rfl, fun h => by cases h⟩
    | paramStart =>
      exact ⟨.paramStart :: mark :: inner, by simpa using hm, rfl, fun h => by cases h⟩
    | _ => exact ⟨mark :: inner, hm, rfl, fun h => by cases h⟩

theorem argument_agrees {o : Opening} (hs : Stand.Step g t.kind g')
    (hm : g.marks = marks r.levels) (hspot : g.spot = .heading ∨ g.spot = .arguments)
    (hparam : t.kind ≠ .paramStart) :
    Yields (Agrees (seen ++ [t]) g') Opening.Judges (r.argument d o t) := by
  unfold argument
  by_cases harg : t.kind = .argStart
  · rw [harg] at hs
    cases hs with
    | argStart h =>
      simp only [harg, if_true]
      split
      · exact ⟨[], by simpa using hm, rfl, .inl ⟨o, rfl⟩⟩
      · exact ⟨by simpa [marks, Slot.mark] using hm, .inl rfl⟩
  · simp only [harg, if_false]
    refine o.node_judges.bind fun n _ => ?_
    have hfree : g.spot.Free := by rcases hspot with h | h <;> simp [h, Spot.Free]
    exact (statement_agrees seen (r := r.add n) hs hm hfree harg hparam).imp (fun _ h => h)
      fun _ h => h.elim

/-- A group that is kept as text goes on up to its own end. -/
theorem take_kept_agrees {opened : Position} {depth : Nat} {text : Text} {as : Kept}
    (hs : Stand.Step g t.kind g') (hmode : r.mode = .kept opened depth text as)
    (ha : Agrees seen g r) :
    Yields (Agrees (seen ++ [t]) g') (fun _ => False) (r.take d t) := by
  simp only [Agrees, hmode] at ha
  obtain ⟨inner, hm, rfl, has⟩ := ha
  have goOn : ∀ inner' : List TokenKind, g'.marks = inner' ++ .argStart :: marks r.levels →
      groupsAfter? (inner.count .argStart) t.kind = some (inner'.count .argStart) →
      Agrees (seen ++ [t]) g' { r with
        last := t.position
        mode := .kept opened (inner'.count .argStart) (text ++ t.text) as } := by
    intro inner' hm' hn'
    refine ⟨inner', hm', rfl, has.imp_right ?_⟩
    rintro ⟨op, group, hcommand, hop, hn⟩
    refine ⟨op, group ++ [t], hcommand.append [t], hop, ?_⟩
    rw [groupsOpen?_append_singleton, hn]
    exact hn'
  simp only [take, hmode]
  generalize ht : t.kind = k at hs goOn ⊢
  cases hs with
  | argEnd h =>
    cases inner with
    | nil =>
      obtain ⟨-, hm⟩ := List.cons.inj hm
      cases as with
      | argument o => exact congrArg _ hm
      | comment p =>
        obtain ⟨_, h⟩ | ⟨op, group, hcommand, hop, hn⟩ := has
        · cases h
        · exact ⟨hm, .inr ⟨rfl, op, group, t, hm ▸ hcommand.append [t], hop, hn, ht⟩⟩
      | source p =>
        obtain ⟨_, h⟩ | ⟨op, group, hcommand, hop, hn⟩ := has
        · cases h
        · exact ⟨hm, .inr ⟨rfl, op, group, t, hm ▸ hcommand.append [t], hop, hn, ht⟩⟩
    | cons mark inner =>
      obtain ⟨rfl, hm'⟩ := List.cons.inj hm
      simpa using goOn inner hm' (by simp [groupsAfter?])
  | argStart h =>
    simpa using goOn (.argStart :: inner) (by simpa using hm) (by simp [groupsAfter?])
  | paramStart =>
    simpa using goOn (.paramStart :: inner) (by simpa using hm) (by simp [groupsAfter?])
  | paramEnd h =>
    cases inner with
    | nil => simp at hm
    | cons mark inner =>
      obtain ⟨rfl, hm'⟩ := List.cons.inj hm
      simpa using goOn inner hm' (by simp [groupsAfter?])
  | _ => exact goOn inner hm rfl

theorem take_name_agrees {p : Position} (hopen : openMarks seen = g.marks)
    (hs : Stand.Step g t.kind g') (hmode : r.mode = .name p) (ha : Agrees seen g r) :
    Yields (Agrees (seen ++ [t]) g') (fun _ => False) (r.take d t) := by
  simp only [Agrees, hmode] at ha
  obtain ⟨rfl, front, e, rfl, he⟩ := ha
  obtain ⟨ht, rfl⟩ := hs.of_name
  have hcommand : ∀ name, t.text = name →
      HasCommand [name] (marks r.levels) (front ++ [e] ++ [t]) [] := by
    rintro _ rfl
    refine ⟨front, e, t, by simp, he, ht, by simp, ?_⟩
    rwa [openMarks_append_singleton, he] at hopen
  simp only [take, hmode, ht, if_true]
  split
  · next h => exact ⟨rfl, hcommand _ (Heading.eq_commentName h)⟩
  · next h => exact ⟨rfl, hcommand _ (Heading.eq_sourceName h), by simp⟩
  · rfl
  · rfl

theorem take_entry_agrees {o : Opening} {params : Params Node}
    (hs : Stand.Step g t.kind g')
    (hmode : r.mode = .key o params ∨ ∃ key, r.mode = .keyed o params key)
    (ha : Agrees seen g r) :
    Yields (Agrees (seen ++ [t]) g') (fun _ => False) (r.take d t) := by
  rcases hmode with hmode | ⟨key, hmode⟩ <;> simp only [Agrees, hmode] at ha <;> subst ha
  · rcases hs.of_key with ⟨ht, rfl⟩ | ⟨ht, rfl⟩
    · simp [take, hmode, ht, Agrees]
    · simp [take, hmode, ht, Agrees]
  · rcases hs.of_keyed with ⟨ht, rfl⟩ | ⟨ht, rfl⟩ | ⟨ht, rfl⟩
    · simp [take, hmode, ht, Agrees, marks, Slot.mark]
    · simp [take, hmode, ht, Agrees, afterEntry]
    · simp [take, hmode, ht, Agrees, afterEntry]

theorem close_argStart (r : Reading) {t : Token} (h : t.kind = .argStart) :
    r.close t = .error ⟨strayGroup (marks r.levels), t.position⟩ := by
  obtain ⟨levels, body, mode, last⟩ := r
  match levels with
  | [] => simp [close, h, refuse, marks, strayGroup]
  | ⟨_, _, .argument _⟩ :: _ => simp [close, h, refuseFor, refuse, marks, Slot.mark, strayGroup]
  | ⟨_, _, .value _ _ _⟩ :: _ =>
    simp [close, afterEntry, h, refuseFor, refuse, marks, Slot.mark, strayGroup]

/-- A statement surprises only where an argument begins for which there is no command. -/
theorem take_statements_agrees (hs : Stand.Step g t.kind g') (hmode : r.mode = .statements)
    (ha : Agrees seen g r) :
    Yields (Agrees (seen ++ [t]) g') (fun fault => ∀ back, Excused (seen ++ t :: back) fault)
      (r.take d t) := by
  simp only [Agrees, hmode] at ha
  obtain ⟨hm, hspot⟩ := ha
  have hfree : g.spot.Free := by rcases hspot with h | ⟨h, -⟩ <;> simp [h, Spot.Free]
  simp only [take, hmode]
  by_cases harg : t.kind = .argStart
  · obtain ⟨h, -⟩ := (harg ▸ hs).of_argStart
    obtain ⟨-, op, group, cl, hcommand, hop, hgroup, hcl⟩ := hspot.resolve_left (by
      rcases h with h | h <;> simp [h])
    simp only [statement, harg, close_argStart _ harg]
    intro back
    refine excused_strayGroup ⟨marks r.levels, op, group, cl, t, back, ?_, hop, hgroup, hcl, harg,
      rfl, rfl⟩
    simpa [hm] using hcommand.append (t :: back)
  · have hparam : t.kind ≠ .paramStart := by
      intro ht
      obtain ⟨h, -⟩ := (ht ▸ hs).of_paramStart
      rcases hspot with h' | ⟨h', -⟩ <;> simp [h] at h'
    exact (statement_agrees seen (r := { r with mode := .statements, last := t.position }) hs hm
      hfree harg hparam).imp (fun _ h => h) fun _ h => h.elim

/-- The reader agrees with the place after a token, or stops with a fault that is excused. -/
theorem take_agrees (hopen : openMarks seen = g.marks) (hs : Stand.Step g t.kind g')
    (ha : Agrees seen g r) :
    Yields (Agrees (seen ++ [t]) g') (fun fault => ∀ back, Excused (seen ++ t :: back) fault)
      (r.take d t) := by
  have never : ∀ {a : Except (Fault ParseCause) Reading},
      Yields (Agrees (seen ++ [t]) g') (fun _ => False) a →
      Yields (Agrees (seen ++ [t]) g') (fun fault => ∀ back, Excused (seen ++ t :: back) fault) a :=
    fun h => h.imp (fun _ h => h) fun _ h => h.elim
  have judged : ∀ {a : Except (Fault ParseCause) Reading},
      Yields (Agrees (seen ++ [t]) g') Opening.Judges a →
      Yields (Agrees (seen ++ [t]) g') (fun fault => ∀ back, Excused (seen ++ t :: back) fault) a :=
    fun h => h.imp (fun _ h => h) fun _ h _ => h.excused _
  cases hmode : r.mode with
  | statements => exact take_statements_agrees seen hs hmode ha
  | name p => exact never (take_name_agrees seen hopen hs hmode ha)
  | kept opened depth text as => exact never (take_kept_agrees seen hs hmode ha)
  | key o params => exact never (take_entry_agrees seen hs (.inl hmode) ha)
  | keyed o params key => exact never (take_entry_agrees seen hs (.inr ⟨key, hmode⟩) ha)
  | line p depth text =>
    simp only [take, hmode]
    simp only [Agrees, hmode] at ha
    exact never (commentLine_agrees seen hs ha)
  | source p =>
    simp only [Agrees, hmode] at ha
    obtain ⟨rfl, hcommand, -⟩ := ha
    simp only [take, hmode]
    by_cases harg : t.kind = .argStart
    · obtain ⟨-, rfl⟩ := (harg ▸ hs).of_argStart
      simp only [harg, if_true]
      have hsub : [Heading.sourceName] ⊆ keptNames := by simp [keptNames]
      exact ⟨[], rfl, rfl, .inr ⟨t, [], (hcommand.mono hsub).append [t], harg, rfl⟩⟩
    · simp only [harg, if_false]
      intro back
      exact ⟨_, t :: back, hcommand.append (t :: back), rfl, by simpa using harg, rfl⟩
  | comment p =>
    simp only [Agrees, hmode] at ha
    obtain ⟨rfl, hcommand⟩ := ha
    simp only [take, hmode]
    by_cases harg : t.kind = .argStart
    · obtain ⟨-, rfl⟩ := (harg ▸ hs).of_argStart
      simp only [harg, if_true]
      have hsub : [Heading.commentName] ⊆ keptNames := by simp [keptNames]
      exact ⟨[], rfl, rfl, .inr ⟨t, [], (hcommand.mono hsub).append [t], harg, rfl⟩⟩
    · simp only [harg, if_false]
      exact never (commentLine_agrees seen hs ⟨[], rfl, rfl, fun _ => .inl trivial⟩)
  | named o =>
    simp only [Agrees, hmode] at ha
    subst ha
    simp only [take, hmode]
    by_cases hparam : t.kind = .paramStart
    · obtain ⟨-, rfl⟩ := (hparam ▸ hs).of_paramStart
      simp [hparam, Agrees]
    · simp only [hparam, if_false]
      exact judged (argument_agrees seen hs rfl (.inl rfl) hparam)
  | arguments o =>
    simp only [Agrees, hmode] at ha
    subst ha
    simp only [take, hmode]
    refine judged (argument_agrees seen hs rfl (.inr rfl) fun ht => ?_)
    cases (ht ▸ hs).of_paramStart.1

/-- From a place where the reader agrees, it agrees after every run of tokens. -/
theorem foldlM_take_agrees {tokens : List Token} (hopen : openMarks seen = g.marks)
    (hr : Stand.Run g (tokens.map Token.kind) g') (ha : Agrees seen g r) :
    Yields (Agrees (seen ++ tokens) g') (Excused (seen ++ tokens))
      (tokens.foldlM (fun r t => r.take d t) r) := by
  induction tokens generalizing seen g r with
  | nil =>
    cases hr
    simpa using ha
  | cons t tokens ih =>
    cases hr with
    | cons hs hr =>
      rw [List.foldlM_cons]
      refine Yields.bind ((take_agrees seen hopen hs ha).imp (fun _ h => h) fun _ h => h tokens)
        fun r' ha' => ?_
      have hopen' : openMarks (seen ++ [t]) = _ :=
        (openMarks_append_singleton seen t).trans (hopen ▸ hs.marks_eq.symm)
      simpa using ih _ hopen' hr ha'

theorem complete_of_marks (r : Reading) (h : marks r.levels = []) : r.complete = .ok r.body := by
  obtain ⟨levels, body, mode, last⟩ := r
  cases levels with
  | nil => rfl
  | cons level levels => simp [marks] at h

/-- Where all that was open is closed, the reader may end, unless a group is lacking. -/
theorem finish_agrees {tokens : List Token} {spot : Spot} (hspot : spot.Free)
    (ha : Agrees tokens ⟨spot, []⟩ r) :
    Yields (fun _ => True) (Excused tokens) r.finish := by
  have ends : ∀ r : Reading, marks r.levels = [] →
      Yields (fun _ => True) (Excused tokens) r.complete := by
    intro r h
    rw [complete_of_marks r h]
    trivial
  unfold finish
  cases hmode : r.mode <;> simp only [Agrees, hmode, Stand.mk.injEq] at ha ⊢
  case statements => exact ends r ha.1.symm
  case name p => simp [ha.1.1, Spot.Free] at hspot
  case source p =>
    obtain ⟨-, hcommand, hlast⟩ := ha
    exact ⟨[], [], hcommand, rfl, by simp, by simpa using hlast⟩
  case comment p => exact ends (r.add _) ha.1.2.symm
  case line p depth text =>
    obtain ⟨inner, hm, -⟩ := ha
    exact ends (r.add _) (List.append_eq_nil_iff.1 hm.symm).2
  case kept opened depth text as =>
    obtain ⟨inner, hm, -⟩ := ha
    simp at hm
  case named o =>
    refine (o.node_judges.imp (fun _ h => h) fun _ h => h.excused tokens).bind fun n _ => ?_
    exact ends (r.add n) ha.2.symm
  case arguments o =>
    refine (o.node_judges.imp (fun _ h => h) fun _ h => h.excused tokens).bind fun n _ => ?_
    exact ends (r.add n) ha.2.symm
  case key o params => simp at ha
  case keyed o params key => simp at ha

end Reading

/-- The tokens of a template are read to the last one, or reading stops with a fault that is
excused: what a command does not take, a match of more than cases, a source without its group, or a
second group after one kept as text. -/
theorem parse_tokenize {d : Delimiters} {t : Text} {tokens : List Token}
    (h : tokenize d t = .ok tokens) :
    (∃ program, parse d tokens = .ok program) ∨
      ∃ fault, parse d tokens = .error fault ∧ Excused tokens fault := by
  obtain ⟨spot, hspot, hrun⟩ := run_tokenize h
  have hstart : Reading.Agrees [] ⟨.statement, []⟩ .initial := ⟨rfl, .inl rfl⟩
  have hread : Yields (Reading.Agrees tokens ⟨spot, []⟩) (Excused tokens)
      (tokens.foldlM (fun r t => r.take d t) Reading.initial) := by
    simpa using Reading.foldlM_take_agrees [] rfl hrun hstart
  have hparse : Yields (fun _ => True) (Excused tokens) (parse d tokens) :=
    hread.bind fun r ha => Reading.finish_agrees hspot ha
  cases hp : parse d tokens with
  | ok program => exact .inl ⟨program, rfl⟩
  | error fault =>
    rw [hp] at hparse
    exact .inr ⟨fault, rfl, hparse⟩

/-- A line comment in an argument swallows a command whose group goes on in the next line. -/
theorem parse_tokenize_lineComment :
    ∃ tokens, tokenize Config.initial.delimiters "\\x\x7ba\\# \\y[k]\x7bz\n\x7d b\nc\x7d".toList =
        .ok tokens ∧
      ((∃ program, parse Config.initial.delimiters tokens = .ok program) ∨
        ∃ fault, parse Config.initial.delimiters tokens = .error fault ∧ Excused tokens fault) := by
  have h : tokenize Config.initial.delimiters
      "\\x\x7ba\\# \\y[k]\x7bz\n\x7d b\nc\x7d".toList = .ok (Token.place .start
        [⟨.escape, ['\\']⟩, ⟨.commandName, ['x']⟩, ⟨.argStart, ['{']⟩, ⟨.raw, ['a']⟩,
          ⟨.escape, ['\\']⟩, ⟨.commandName, ['#']⟩, ⟨.raw, [' ']⟩, ⟨.escape, ['\\']⟩,
          ⟨.commandName, ['y']⟩, ⟨.paramStart, ['[']⟩, ⟨.paramKey, ['k']⟩, ⟨.paramEnd, [']']⟩,
          ⟨.argStart, ['{']⟩, ⟨.raw, ['z', '\n']⟩, ⟨.argEnd, ['}']⟩,
          ⟨.raw, [' ', 'b', '\n', 'c']⟩, ⟨.argEnd, ['}']⟩]) := by
    rw [Config.delimiters_initial]
    cbv
  exact ⟨_, h, parse_tokenize h⟩

/-- A second group after a comment begins no statement. -/
theorem parse_secondGroup :
    (∃ tokens, tokenize Config.initial.delimiters "\\#{a}{b}".toList = .ok tokens ∧
      parse Config.initial.delimiters tokens = .error ⟨.unexpected .argStart, ⟨0, 5⟩⟩) ∧
    ∃ tokens, tokenize Config.initial.delimiters "\\x\x7b\\${a}{b}\x7d".toList = .ok tokens ∧
      parse Config.initial.delimiters tokens =
        .error ⟨.expected .argEnd (some .argStart), ⟨0, 8⟩⟩ := by
  rw [Config.delimiters_initial]
  refine ⟨⟨Token.place .start [⟨.escape, ['\\']⟩, ⟨.commandName, ['#']⟩, ⟨.argStart, ['{']⟩,
    ⟨.raw, ['a']⟩, ⟨.argEnd, ['}']⟩, ⟨.argStart, ['{']⟩, ⟨.raw, ['b']⟩, ⟨.argEnd, ['}']⟩],
    by cbv, by cbv⟩, ?_⟩
  exact ⟨Token.place .start [⟨.escape, ['\\']⟩, ⟨.commandName, ['x']⟩, ⟨.argStart, ['{']⟩,
    ⟨.escape, ['\\']⟩, ⟨.commandName, ['$']⟩, ⟨.argStart, ['{']⟩, ⟨.raw, ['a']⟩, ⟨.argEnd, ['}']⟩,
    ⟨.argStart, ['{']⟩, ⟨.raw, ['b']⟩, ⟨.argEnd, ['}']⟩, ⟨.argEnd, ['}']⟩], by cbv, by cbv⟩

end Stencil
