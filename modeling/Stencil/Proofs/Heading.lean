import Stencil.Proofs.Forming

/-! What a command name begins. The language keeps all names that begin something else than a call,
or that calls know as built-in commands; so a command of any other name is read as a call. -/
namespace Stencil

section Names

variable {name : Text}

/-- The kept names are those of the tables of commands. -/
theorem reservedNames_eq : reservedNames =
    Heading.commentName :: Heading.sourceName :: Construct.all.map Construct.name ++
      Builtin.all.map Builtin.name := by
  decide

theorem plainName_ne (h : isReserved name = false) {kept : Text} (hkept : kept ∈ reservedNames) :
    plainName name ≠ kept := by
  rintro rfl
  exact absurd (decide_eq_true hkept) (Bool.eq_false_iff.1 h)

theorem plainName_of_mem : ∀ kept ∈ reservedNames, plainName kept = kept := by decide

theorem ne_of_isReserved (h : isReserved name = false) {kept : Text}
    (hkept : kept ∈ reservedNames) : name ≠ kept := by
  rintro rfl
  exact plainName_ne h hkept (plainName_of_mem name hkept)

theorem Construct.name_mem (c : Construct) : c.name ∈ reservedNames := by
  have hc : c ∈ all := by cases c <;> decide
  rw [reservedNames_eq]
  exact List.mem_append_left _ (.tail _ (.tail _ (List.mem_map_of_mem hc)))

theorem Builtin.name_mem (b : Builtin) : b.name ∈ reservedNames := by
  have hb : b ∈ all := by cases b <;> decide
  rw [reservedNames_eq]
  exact List.mem_append_right _ (List.mem_map_of_mem hb)

theorem Construct.ofName?_of_isReserved (h : isReserved name = false) : ofName? name = none := by
  refine List.find?_eq_none.2 fun c _ => ?_
  rw [decide_eq_true_eq]
  split
  · exact (ne_of_isReserved h c.name_mem).symm
  · exact (plainName_ne h c.name_mem).symm

theorem Builtin.ofName?_of_isReserved (h : isReserved name = false) : ofName? name = none := by
  refine List.find?_eq_none.2 fun b _ => ?_
  rw [decide_eq_true_eq]
  exact (plainName_ne h b.name_mem).symm

/-- A name that is not kept begins a call. -/
theorem Heading.ofName_of_isReserved (h : isReserved name = false) : ofName name = .call := by
  have hcomment : name ≠ commentName := ne_of_isReserved h (by simp [reservedNames_eq])
  have hsource : name ≠ sourceName := ne_of_isReserved h (by simp [reservedNames_eq])
  rw [ofName, if_neg hcomment, if_neg hsource, Construct.ofName?_of_isReserved h]

end Names

/-- A command is what its name begins. -/
def Opening.Headed (o : Opening) : Prop :=
  Heading.ofName o.name = o.construct.elim .call .construct

/-- The command that is being read, if the next token belongs to one. -/
def Mode.opening? : Mode → Option Opening
  | .named o | .arguments o | .key o _ | .keyed o _ _ | .kept _ _ _ (.argument o) => some o
  | _ => none

namespace Reading

/-- The commands that are not read to their ends, the innermost first. -/
def openings (r : Reading) : List Opening := r.mode.opening?.toList ++ r.levels.map Level.opening

/-- Each of them is what its name begins. -/
def Headed (r : Reading) : Prop := ∀ o ∈ r.openings, o.Headed

variable {d : Delimiters} {r : Reading} {t : Token} {o : Opening}

theorem headed_iff : r.Headed ↔
    (∀ o, r.mode.opening? = some o → o.Headed) ∧ ∀ level ∈ r.levels, level.opening.Headed := by
  simp [Headed, openings, or_imp, forall_and]

section Steps

variable (hlevels : ∀ level ∈ r.levels, level.opening.Headed)

include hlevels

theorem headed_of_mode {body : List Node} {mode : Mode} {last : Position}
    (h : ∀ o, mode.opening? = some o → o.Headed) : Headed ⟨r.levels, body, mode, last⟩ :=
  headed_iff.2 ⟨h, hlevels⟩

theorem headed_cons {before : List Node} {slot : Slot} {body : List Node} {last : Position}
    (ho : o.Headed) : Headed ⟨⟨before, o, slot⟩ :: r.levels, body, .statements, last⟩ :=
  headed_iff.2 ⟨nofun, List.forall_mem_cons.2 ⟨ho, hlevels⟩⟩

theorem afterEntry_headed (ho : o.Headed) (params : Params Node) :
    Yields Headed (fun _ => True) (r.afterEntry o params t) := by
  unfold afterEntry
  split
  · exact headed_of_mode hlevels (by rintro _ ⟨⟩; exact ho)
  · exact headed_of_mode hlevels (by rintro _ ⟨⟩; exact ho)
  · trivial

theorem close_headed : Yields Headed (fun _ => True) (r.close t) := by
  unfold close
  split
  · trivial
  · next before o opened levels heq =>
    rw [heq] at hlevels
    obtain ⟨ho, hlevels⟩ := List.forall_mem_cons.1 hlevels
    split
    · exact headed_iff.2 ⟨by rintro _ ⟨⟩; exact ho, hlevels⟩
    · trivial
  · next before o params key assigned levels heq =>
    rw [heq] at hlevels
    obtain ⟨ho, hlevels⟩ := List.forall_mem_cons.1 hlevels
    exact afterEntry_headed (r := ⟨levels, before, .statements, r.last⟩) hlevels ho _

theorem statement_headed : Yields Headed (fun _ => True) (r.statement d t) := by
  unfold statement
  split
  · exact headed_of_mode hlevels nofun
  · exact headed_of_mode hlevels nofun
  · exact headed_of_mode hlevels nofun
  · exact close_headed hlevels

theorem commentLine_headed (p : Position) (depth : Nat) (text : Text) :
    Yields Headed (fun _ => True) (r.commentLine d p depth text t) := by
  unfold commentLine
  dsimp only
  split
  case h_1 | h_2 | h_3 => exact close_headed (r := r.add (commentNode text p)) hlevels
  case h_8 =>
    split
    · exact headed_of_mode hlevels nofun
    · exact headed_of_mode hlevels nofun
  all_goals exact headed_of_mode hlevels nofun

theorem argument_headed (ho : o.Headed) :
    Yields Headed (fun _ => True) (r.argument d o t) := by
  unfold argument
  split
  · split
    · exact headed_of_mode hlevels (by rintro _ ⟨⟩; exact ho)
    · exact headed_cons hlevels ho
  · have hnode : Yields (fun _ => True) (fun _ => True) o.node :=
      o.node_makes.imp (fun _ _ => trivial) fun _ _ => trivial
    exact hnode.bind fun n _ => statement_headed (r := r.add n) hlevels

theorem keep_headed (opened : Position) (text : Text) {as : Kept}
    (has : ∀ o, as = .argument o → o.Headed) : (r.keep opened text as).Headed := by
  cases as with
  | comment p => exact headed_of_mode hlevels nofun
  | source p => exact headed_of_mode hlevels nofun
  | argument o => exact headed_of_mode hlevels (by rintro _ ⟨⟩; exact has o rfl)

end Steps

/-- Whatever token is taken, the commands that are being read stay what their names begin. -/
theorem take_headed (h : r.Headed) : Yields Headed (fun _ => True) (r.take d t) := by
  obtain ⟨hmode, hlevels⟩ := headed_iff.1 h
  have goOn : ∀ {mode : Mode}, (∀ o, mode.opening? = some o → o.Headed) →
      Headed { r with mode := mode, last := t.position } := headed_of_mode hlevels
  have waits : ∀ mode : Mode, ∀ level ∈ Reading.levels { r with mode := mode, last := t.position },
      level.opening.Headed := fun _ => hlevels
  cases hr : r.mode <;> simp only [take, hr] <;> rw [hr] at hmode
  case statements => exact statement_headed hlevels
  case name p =>
    split
    · cases hname : Heading.ofName t.text with
      | comment => exact goOn nofun
      | source => exact goOn nofun
      | construct c => exact goOn (by rintro _ ⟨⟩; exact hname)
      | call => exact goOn (by rintro _ ⟨⟩; exact hname)
    · trivial
  case source p =>
    split
    · exact goOn nofun
    · trivial
  case comment p =>
    split
    · exact goOn nofun
    · exact commentLine_headed (waits _) p 0 []
  case line p depth text => exact commentLine_headed (waits _) p depth text
  case kept opened depth text as =>
    have has : ∀ o, as = .argument o → o.Headed := by
      rintro o rfl
      exact hmode o rfl
    have stays : ∀ depth text, ∀ o, (Mode.kept opened depth text as).opening? = some o →
        o.Headed := by
      cases as <;> exact fun _ _ => hmode
    split
    · exact keep_headed (waits _) opened text has
    · exact goOn (stays _ _)
    · exact goOn (stays _ _)
    · exact goOn (stays _ _)
  case named o =>
    split
    · exact goOn hmode
    · exact argument_headed hlevels (hmode o rfl)
  case arguments o => exact argument_headed hlevels (hmode o rfl)
  case key o params =>
    split
    · exact goOn (by rintro _ ⟨⟩; exact hmode o rfl)
    · exact goOn hmode
    · trivial
  case keyed o params key =>
    split
    · exact headed_cons hlevels (hmode o rfl)
    · exact afterEntry_headed (waits _) (hmode o rfl) _

theorem headed_of_foldlM {tokens : List Token} (h : tokens.foldlM (·.take d) initial = .ok r) :
    r.Headed := by
  have hinitial : initial.Headed := by simp [Headed, openings, initial, Mode.opening?]
  have hfold : Yields Headed (fun _ => True) (tokens.foldlM (fun r t => r.take d t) initial) :=
    .foldlM (fun _ _ => take_headed) hinitial tokens
  rwa [show tokens.foldlM (fun r t => r.take d t) initial = _ from h] at hfold

end Reading

/-- A command of this name is read, and made into, a call. -/
structure Reading.ReadsCalls (d : Delimiters) (name : Text) (r : Reading) : Prop where
  begins : ∀ p t, r.mode = .name p → t.kind = .commandName → t.text = name →
    r.take d t = .ok ⟨r.levels, r.body, .named ⟨none, name, p, none, []⟩, t.position⟩
  ends : ∀ o ∈ r.openings, o.name = name →
    o.insistent = 0 ∧ o.node = .ok (.mk (.call name o.params o.args) o.position.here)

theorem Reading.readsCalls_of_foldlM {d : Delimiters} {r : Reading} {name : Text}
    {tokens : List Token} (hname : isReserved name = false)
    (h : tokens.foldlM (·.take d) initial = .ok r) : r.ReadsCalls d name where
  begins := by
    rintro p t hmode hkind rfl
    simp only [take, hmode, hkind, if_true, Heading.ofName_of_isReserved hname]
    rfl
  ends := by
    rintro o ho rfl
    have hconstruct : o.construct = none := by
      have hheaded : Heading.ofName o.name = o.construct.elim .call .construct :=
        headed_of_foldlM h o ho
      rw [Heading.ofName_of_isReserved hname] at hheaded
      cases hc : o.construct with
      | none => rfl
      | some c =>
        rw [hc] at hheaded
        cases hheaded
    rw [Opening.insistent, Opening.node, hconstruct]
    exact ⟨rfl, rfl⟩

end Stencil
