import Mathlib.Data.Prod.Lex
import Stencil.Proofs.Placement

/-! Where the imports of a program stand in the text it was read from: those in a statement before
those in the next one, and those in an argument before those in the next one. -/
namespace Stencil

namespace Position

/-- Places are in the order in which a reader comes to them. -/
instance : Preorder Position := Preorder.lift fun p => toLex (p.row, p.col)

theorem lt_iff {p q : Position} : p < q ↔ p.row < q.row ∨ p.row = q.row ∧ p.col < q.col :=
  Prod.Lex.toLex_lt_toLex

theorem start_le (p : Position) : start ≤ p := by
  refine Prod.Lex.toLex_le_toLex.2 ?_
  obtain h | h := Nat.eq_zero_or_pos p.row
  · exact .inr ⟨h.symm, Nat.zero_le _⟩
  · exact .inl h

theorem lt_next (p : Position) (c : Char) : p < p.next c := by
  unfold next
  split <;> simp [lt_iff]

theorem le_after (p : Position) (t : Text) : p ≤ p.after t := by
  induction t generalizing p with
  | nil => exact le_rfl
  | cons c t ih => exact (p.lt_next c).le.trans (ih (p.next c))

end Position

namespace Token

theorem le_position_of_mem_place {p : Position} {ls : List Lexeme} {t : Token}
    (h : t ∈ place p ls) : p ≤ t.position := by
  induction ls generalizing p with
  | nil => cases h
  | cons l ls ih =>
    obtain rfl | h := List.mem_cons.1 h
    · exact le_rfl
    · exact (p.le_after l.text).trans (ih h)

theorem pairwise_place (p : Position) (ls : List Lexeme) :
    (place p ls).Pairwise fun s t => s.position ≤ t.position := by
  induction ls generalizing p with
  | nil => exact .nil
  | cons l ls ih =>
    refine .cons (fun t ht => ?_) (ih _)
    exact (p.le_after l.text).trans (le_position_of_mem_place ht)

end Token

namespace Node

/-- The places of the imports in a node, in the order of the walk. -/
def positions (n : Node) : List Position := n.uses.map (·.location.position)

/-- All imports in the node stand between two places. -/
def Within (lo hi : Position) (n : Node) : Prop := ∀ p ∈ n.positions, lo ≤ p ∧ p ≤ hi

/-- No import in `n` stands before one in `m`. -/
def Precedes (m n : Node) : Prop := ∀ p ∈ m.positions, ∀ q ∈ n.positions, p ≤ q

/-- The imports in the parts outside the parameter list stand in the order of these parts. -/
def Ordered (n : Node) : Prop := n.form.ownParts.Pairwise Precedes

variable {lo lo' mid hi hi' : Position} {m n : Node} {form : Form Node} {l : Location}

theorem Within.mono (h : n.Within lo hi) (hlo : lo' ≤ lo) (hhi : hi ≤ hi') : n.Within lo' hi' :=
  fun p hp => ⟨hlo.trans (h p hp).1, (h p hp).2.trans hhi⟩

theorem Within.precedes (hm : m.Within lo mid) (hn : n.Within mid hi) : m.Precedes n :=
  fun p hp q hq => (hm p hp).2.trans (hn q hq).1

theorem positions_mk (h : (mk form l).isUse = false) :
    (mk form l).positions = form.parts.flatMap positions := by
  rw [positions, uses_mk form l h, List.map_flatMap]
  rfl

theorem mem_positions_group {body : List Node} {p : Position} (hn : n ∈ body)
    (hp : p ∈ n.positions) : p ∈ (mk (.group body) l).positions := by
  rw [positions_mk rfl, Form.parts_group]
  exact List.mem_flatMap.2 ⟨n, hn, hp⟩

theorem within_mk (h : (mk form l).isUse = false) (hparts : ∀ q ∈ form.parts, q.Within lo hi) :
    (mk form l).Within lo hi := by
  intro p hp
  rw [positions_mk h] at hp
  obtain ⟨q, hq, hp⟩ := List.mem_flatMap.1 hp
  exact hparts q hq p hp

theorem within_use {target : Node} {hash : Option Node} {params : Option (Params Node)}
    (hlo : lo ≤ l.position) (hhi : l.position ≤ hi) :
    (mk (.use target hash params) l).Within lo hi := by
  intro p hp
  rw [positions, uses_use] at hp
  obtain rfl := List.mem_singleton.1 hp
  exact ⟨hlo, hhi⟩

end Node

/-- Statements or arguments between two places, one after another. -/
structure Row (lo hi : Position) (ns : List Node) : Prop where
  order : ns.Pairwise Node.Precedes
  within : ∀ n ∈ ns, n.Within lo hi
  ordered : ∀ n ∈ ns, n.Everywhere Node.Ordered

namespace Row

variable {lo mid hi hi' : Position} {ns : List Node} {n : Node}

theorem nil : Row lo hi [] := ⟨.nil, by simp, by simp⟩

theorem mono (h : Row lo hi ns) (hhi : hi ≤ hi') : Row lo hi' ns :=
  ⟨h.order, fun n hn => (h.within n hn).mono le_rfl hhi, h.ordered⟩

theorem snoc (h : Row lo mid ns) (hlo : lo ≤ mid) (hhi : mid ≤ hi) (hn : n.Within mid hi)
    (hordered : n.Everywhere Node.Ordered) : Row lo hi (ns ++ [n]) where
  order := by
    refine List.pairwise_append.2 ⟨h.order, List.pairwise_singleton _ n, fun m hm n' hn' => ?_⟩
    obtain rfl := List.mem_singleton.1 hn'
    exact (h.within m hm).precedes hn
  within := by
    intro m hm
    obtain hm | hm := List.mem_append.1 hm
    · exact (h.within m hm).mono le_rfl hhi
    · exact List.mem_singleton.1 hm ▸ hn.mono hlo le_rfl
  ordered := by
    intro m hm
    obtain hm | hm := List.mem_append.1 hm
    · exact h.ordered m hm
    · exact List.mem_singleton.1 hm ▸ hordered

theorem addLeaf (h : Row lo hi ns) {form : Form Node} (hform : form.parts = [])
    (huse : ∀ l, (Node.mk form l).isUse = false) (l : Location) :
    Row lo hi (ns ++ [.mk form l]) where
  order := by
    refine List.pairwise_append.2 ⟨h.order, List.pairwise_singleton _ _, fun m hm n hn => ?_⟩
    intro p hp q hq
    obtain rfl := List.mem_singleton.1 hn
    simp [Node.positions_mk (huse l), hform] at hq
  within := by
    intro m hm p hp
    obtain hm | hm := List.mem_append.1 hm
    · exact h.within m hm p hp
    · obtain rfl := List.mem_singleton.1 hm
      simp [Node.positions_mk (huse l), hform] at hp
  ordered := by
    intro m hm
    obtain hm | hm := List.mem_append.1 hm
    · exact h.ordered m hm
    · obtain rfl := List.mem_singleton.1 hm
      have hown : form.ownParts = [] := List.append_eq_nil_iff.1 hform |>.1
      refine Node.everywhere_iff.2 ⟨?_, by simp [hform]⟩
      simp [Node.Ordered, hown]

theorem within_group (h : Row lo hi ns) (l : Location) : (Node.mk (.group ns) l).Within lo hi :=
  Node.within_mk rfl (by simpa using h.within)

theorem everywhere_group (h : Row lo hi ns) (l : Location) :
    (Node.mk (.group ns) l).Everywhere Node.Ordered :=
  Node.everywhere_iff.2 ⟨h.order, by simpa using h.ordered⟩

end Row

/-- The imports in the values of a list of parameters stand between two places. -/
def Params.Laid (lo hi : Position) (p : Params Node) : Prop :=
  ∀ v ∈ p.values, v.Within lo hi ∧ v.Everywhere Node.Ordered

namespace Params.Laid

variable {lo hi hi' : Position} {p : Params Node}

theorem mono (h : p.Laid lo hi) (hhi : hi ≤ hi') : p.Laid lo hi' :=
  fun v hv => ⟨(h v hv).1.mono le_rfl hhi, (h v hv).2⟩

theorem insert (h : p.Laid lo hi) (key : Text) {value : Option Node}
    (hv : ∀ v ∈ value, v.Within lo hi ∧ v.Everywhere Node.Ordered) :
    (p.insert key value).Laid lo hi := by
  intro v hv'
  obtain ⟨k, hk⟩ := Params.mem_values.1 hv'
  obtain hk | hk := Entries.mem_insert hk
  · exact hv v (Prod.mk.inj hk).2.symm
  · exact h v (Params.mem_values.2 ⟨k, hk⟩)

end Params.Laid

namespace Opening

/-- The imports in what was read of a command stand after it, with the arguments in order. -/
structure Laid (o : Opening) (hi : Position) : Prop where
  starts : o.position ≤ hi
  args : Row o.position hi o.args
  params : ∀ p ∈ o.params, p.Laid o.position hi

variable {o : Opening} {mid hi hi' : Position}

theorem Laid.mono (h : o.Laid hi) (hhi : hi ≤ hi') : o.Laid hi' :=
  ⟨h.starts.trans hhi, h.args.mono hhi, fun p hp => (h.params p hp).mono hhi⟩

theorem Laid.addArgument (h : o.Laid mid) (hhi : mid ≤ hi) {arg : Node} (ha : arg.Within mid hi)
    (hordered : arg.Everywhere Node.Ordered) : (o.addArgument arg).Laid hi :=
  ⟨h.starts.trans hhi, h.args.snoc h.starts hhi ha hordered, (h.mono hhi).params⟩

theorem Laid.addSource (h : o.Laid hi) (text : Text) (l : Location) :
    (o.addArgument (.mk (.expression text) l)).Laid hi :=
  ⟨h.starts, h.args.addLeaf rfl (fun _ => rfl) l, h.params⟩

theorem Laid.withParams (h : o.Laid hi) {p : Params Node} (hp : p.Laid o.position hi) :
    Laid { o with params := some p } hi :=
  ⟨h.starts, h.args, by rintro _ ⟨⟩; exact hp⟩

theorem Laid.ordered {form : Form Node} (h : o.Laid hi) (hform : o.Makes form) :
    form.ownParts.Pairwise Node.Precedes := by
  obtain hown | ⟨subject, statements, l, cases, hown, ho, hsub, -⟩ := hform.parts
  · exact hown ▸ h.args.order
  · have horder := h.args.order
    rw [ho, List.pairwise_pair] at horder
    have hbody : (Node.mk (.group statements) l).Everywhere Node.Ordered :=
      h.args.ordered _ (by simp [ho])
    rw [hown]
    refine .cons (fun q hq p hp p' hp' => horder p hp p' ?_) (hbody.self.sublist hsub)
    exact Node.mem_positions_group (hsub.subset hq) hp'

/-- The imports in a command stand after its escape, or the command is one. -/
theorem node_laid (h : o.Laid hi) : Yields
    (fun n => n.Within o.position hi ∧ n.Everywhere Node.Ordered) (fun _ => True) o.node := by
  refine o.node_makes.imp (fun n hn => ?_) fun _ _ => trivial
  obtain ⟨form, rfl, hform⟩ := hn
  have hempty : Params.Laid o.position hi .empty :=
    fun v hv => by simp [Params.empty, Params.values] at hv
  have hown : ∀ q ∈ form.ownParts, q.Within o.position hi ∧ q.Everywhere Node.Ordered := by
    refine hform.forall_mem_ownParts (fun q hq => ⟨h.args.within q hq, h.args.ordered q hq⟩) ?_
    rintro statements l ⟨hwithin, hordered⟩ n hn -
    refine ⟨fun p hp => hwithin p (Node.mem_positions_group hn hp), ?_⟩
    exact hordered.part (by simpa using hn)
  have hparts := Form.forall_mem_parts.2 ⟨hown, hform.forall_params hempty h.params⟩
  refine ⟨?_, Node.everywhere_iff.2 ⟨h.ordered hform, fun q hq => (hparts q hq).2⟩⟩
  by_cases huse : (Node.mk form o.position.here).isUse
  · cases form with
    | use target hash params => exact Node.within_use le_rfl h.starts
    | _ => cases huse
  · exact Node.within_mk (by simpa using huse) fun q hq => (hparts q hq).1

end Opening

/-- The imports in the parameters that wait for a value stand between two places. -/
def Slot.Laid (lo hi : Position) : Slot → Prop
  | .argument _ => True
  | .value params _ _ => params.Laid lo hi

namespace Reading

/-- The statements before a command stand from `lo` on, and what was read of it after them, up to
`hi`. -/
structure Waits (lo hi : Position) (before : List Node) (o : Opening) : Prop where
  starts : lo ≤ o.position
  before : Row lo o.position before
  opening : o.Laid hi

/-- What waits at the levels stands up to `hi`, outer levels first. -/
def Stacked (hi : Position) : List Level → Prop
  | [] => True
  | ⟨before, o, slot⟩ :: levels =>
    (∃ lo, Stacked lo levels ∧ Waits lo hi before o) ∧ slot.Laid o.position hi

/-- The innermost statements stand from `lo` on, and what the next token belongs to after them, up
to `hi`. -/
def Ends (lo hi : Position) (body : List Node) : Mode → Prop
  | .named o | .arguments o | .kept _ _ _ (.argument o) => Waits lo hi body o
  | .key o params | .keyed o params _ => Waits lo hi body o ∧ params.Laid o.position hi
  | .name p => lo ≤ p ∧ p ≤ hi ∧ Row lo p body
  | _ => Row lo hi body

/-- The imports that were read stand in order, up to `hi`. -/
def Laid (hi : Position) (r : Reading) : Prop :=
  ∃ lo ≤ hi, Stacked lo r.levels ∧ Ends lo hi r.body r.mode

variable {d : Delimiters} {r : Reading} {t : Token} {lo hi hi' : Position} {body : List Node}

theorem Waits.mono {o : Opening} (h : Waits lo hi body o) (hhi : hi ≤ hi') :
    Waits lo hi' body o := ⟨h.starts, h.before, h.opening.mono hhi⟩

theorem Ends.mono {mode : Mode} (h : Ends lo hi body mode) (hhi : hi ≤ hi') :
    Ends lo hi' body mode := by
  cases mode with
  | named o | arguments o => exact Waits.mono h hhi
  | key o params | keyed o params key => exact ⟨h.1.mono hhi, h.2.mono hhi⟩
  | name p => exact ⟨h.1, h.2.1.trans hhi, h.2.2⟩
  | kept opened depth text as =>
    cases as with
    | argument o => exact Waits.mono h hhi
    | comment p | source p => exact Row.mono h hhi
  | statements | source p | comment p | line p depth text => exact Row.mono h hhi

theorem Laid.mono (h : r.Laid hi) (hhi : hi ≤ hi') : r.Laid hi' := by
  obtain ⟨lo, hlo, hlevels, hends⟩ := h
  exact ⟨lo, hlo.trans hhi, hlevels, hends.mono hhi⟩

theorem afterEntry_laid {o : Opening} {params : Params Node} (hlo : lo ≤ hi)
    (hlevels : Stacked lo r.levels) (h : Waits lo hi r.body o) (hp : params.Laid o.position hi) :
    Yields (Laid hi) (fun _ => True) (r.afterEntry o params t) := by
  unfold afterEntry
  split
  · exact ⟨lo, hlo, hlevels, h, hp⟩
  · exact ⟨lo, hlo, hlevels, h.starts, h.before, h.opening.withParams hp⟩
  · trivial

theorem close_laid (hlo : lo ≤ hi) (hlevels : Stacked lo r.levels) (h : Row lo hi r.body) :
    Yields (Laid hi) (fun _ => True) (r.close t) := by
  unfold close
  split
  · trivial
  · next before o opened levels hr =>
    rw [hr] at hlevels
    obtain ⟨⟨lo', hrest, hwaits⟩, -⟩ := hlevels
    split
    · refine ⟨lo', ?_, hrest, hwaits.starts, hwaits.before, ?_⟩
      · exact hwaits.starts.trans (hwaits.opening.starts.trans hlo)
      · exact hwaits.opening.addArgument hlo (h.within_group _) (h.everywhere_group _)
    · trivial
  · next before o params key assigned levels hr =>
    rw [hr] at hlevels
    obtain ⟨⟨lo', hrest, hwaits⟩, hslot⟩ := hlevels
    have hlo' : lo' ≤ hi := hwaits.starts.trans (hwaits.opening.starts.trans hlo)
    refine afterEntry_laid (r := ⟨levels, before, .statements, r.last⟩) hlo' hrest
      (hwaits.mono hlo) ((Params.Laid.mono hslot hlo).insert key ?_)
    rintro _ ⟨⟩
    exact ⟨(h.within_group _).mono hwaits.opening.starts le_rfl, h.everywhere_group _⟩

theorem statement_laid (hlo : lo ≤ t.position) (hlevels : Stacked lo r.levels)
    (h : Row lo t.position r.body) :
    Yields (Laid t.position) (fun _ => True) (r.statement d t) := by
  unfold statement
  split
  · exact ⟨lo, hlo, hlevels, h.addLeaf rfl (fun _ => rfl) _⟩
  · exact ⟨lo, hlo, hlevels, h.addLeaf rfl (fun _ => rfl) _⟩
  · exact ⟨lo, hlo, hlevels, hlo, le_rfl, h⟩
  · exact close_laid hlo hlevels h

theorem commentLine_laid (hlo : lo ≤ hi) (hlevels : Stacked lo r.levels) (h : Row lo hi r.body)
    (p : Position) (depth : Nat) (text : Text) :
    Yields (Laid hi) (fun _ => True) (r.commentLine d p depth text t) := by
  have hcomment : ∀ text : Text, Row lo hi (r.add (commentNode text p)).body :=
    fun text => h.addLeaf rfl (fun _ => rfl) _
  have goOn : ∀ depth : Nat, Laid hi { r with mode := .line p depth (text ++ t.text) } :=
    fun _ => ⟨lo, hlo, hlevels, h⟩
  unfold commentLine
  dsimp only
  split
  · exact close_laid hlo hlevels (hcomment text)
  · exact close_laid hlo hlevels (hcomment text)
  · exact close_laid hlo hlevels (hcomment text)
  · exact goOn _
  · exact goOn _
  · exact goOn _
  · exact goOn _
  · split
    · exact goOn _
    · exact ⟨lo, hlo, hlevels, (hcomment _).addLeaf rfl (fun _ => rfl) _⟩
  · exact goOn _

theorem argument_laid {o : Opening} (hlo : lo ≤ t.position) (hlevels : Stacked lo r.levels)
    (h : Waits lo t.position r.body o) :
    Yields (Laid t.position) (fun _ => True) (r.argument d o t) := by
  unfold argument
  split
  · split
    · exact ⟨lo, hlo, hlevels, h⟩
    · exact ⟨t.position, le_rfl, ⟨⟨lo, hlevels, h⟩, trivial⟩, .nil⟩
  · refine (Opening.node_laid h.opening).bind fun n hn => ?_
    exact statement_laid hlo hlevels (h.before.snoc h.starts h.opening.starts hn.1 hn.2)

theorem keep_laid {opened : Position} {depth : Nat} {kept : Text} {as : Kept} (hlo : lo ≤ hi)
    (hlevels : Stacked lo r.levels) (h : Ends lo hi r.body (.kept opened depth kept as))
    (text : Text) : (r.keep opened text as).Laid hi := by
  cases as with
  | comment p => exact ⟨lo, hlo, hlevels, Row.addLeaf h rfl (fun _ => rfl) _⟩
  | source p => exact ⟨lo, hlo, hlevels, Row.addLeaf h rfl (fun _ => rfl) _⟩
  | argument o =>
    obtain ⟨hstarts, hbefore, hopening⟩ := h
    exact ⟨lo, hlo, hlevels, hstarts, hbefore, hopening.addSource text _⟩

/-- A token that stands after all that was read keeps the order. -/
theorem take_laid (h : r.Laid t.position) :
    Yields (Laid t.position) (fun _ => True) (r.take d t) := by
  obtain ⟨lo, hlo, hlevels, hends⟩ := h
  have goOn : ∀ mode : Mode, Ends lo t.position r.body mode →
      Laid t.position { r with mode := mode, last := t.position } :=
    fun _ hm => ⟨lo, hlo, hlevels, hm⟩
  have fresh : ∀ (p : Position) (o : Opening), Ends lo t.position r.body (.name p) →
      o.position = p → o.args = [] → o.params = none → Waits lo t.position r.body o := by
    intro p o hname hp hargs hparams
    obtain ⟨hle, hhi, hrow⟩ := hname
    subst hp
    exact ⟨hle, hrow, hhi, hargs ▸ .nil, by simp [hparams]⟩
  cases hr : r.mode <;> simp only [take, hr] <;> rw [hr] at hends
  case statements => exact statement_laid hlo hlevels hends
  case name p =>
    have hrow : Row lo t.position r.body := hends.2.2.mono hends.2.1
    split
    · split
      · exact goOn (.comment p) hrow
      · exact goOn (.source p) hrow
      · exact goOn (.named _) (fresh p _ hends rfl rfl rfl)
      · exact goOn (.named _) (fresh p _ hends rfl rfl rfl)
    · trivial
  case source p =>
    split
    · exact goOn (.kept _ 0 [] (.source p)) hends
    · trivial
  case comment p =>
    split
    · exact goOn (.kept _ 0 [] (.comment p)) hends
    · exact commentLine_laid (r := ⟨r.levels, r.body, .comment p, t.position⟩) hlo hlevels
        hends p 0 []
  case line p depth text =>
    exact commentLine_laid (r := ⟨r.levels, r.body, .line p depth text, t.position⟩) hlo hlevels
      hends p depth text
  case kept opened depth text as =>
    have hkept : ∀ depth text, Ends lo t.position r.body (.kept opened depth text as) := by
      intro depth text
      cases as <;> exact hends
    split
    · exact yields_pure.2 (keep_laid (r := ⟨_, _, _, t.position⟩) hlo hlevels hends text)
    · exact goOn (.kept opened _ _ as) (hkept _ _)
    · exact goOn (.kept opened _ _ as) (hkept _ _)
    · exact goOn (.kept opened _ _ as) (hkept _ _)
  case named o =>
    split
    · exact goOn (.key o _) ⟨hends, fun v hv => absurd hv (by simp [Params.values])⟩
    · exact argument_laid hlo hlevels hends
  case arguments o => exact argument_laid hlo hlevels hends
  case key o params =>
    obtain ⟨hwaits, hp⟩ := hends
    split
    · exact goOn (.arguments _) ⟨hwaits.starts, hwaits.before, hwaits.opening.withParams hp⟩
    · exact goOn (.keyed o params _) ⟨hwaits, hp⟩
    · trivial
  case keyed o params key =>
    obtain ⟨hwaits, hp⟩ := hends
    split
    · exact yields_pure.2 ⟨t.position, le_rfl, ⟨⟨lo, hlevels, hwaits⟩, hp⟩, .nil⟩
    · exact afterEntry_laid hlo hlevels hwaits (hp.insert key (by simp))

theorem foldlM_take_laid {tokens : List Token} (h : r.Laid hi)
    (hfirst : ∀ t ∈ tokens, hi ≤ t.position)
    (htokens : tokens.Pairwise fun s t => s.position ≤ t.position) :
    Yields (fun r' => ∃ hi, r'.Laid hi) (fun _ => True)
      (tokens.foldlM (fun r t => r.take d t) r) := by
  induction tokens generalizing r hi with
  | nil => exact ⟨hi, h⟩
  | cons t tokens ih =>
    obtain ⟨hnext, hrest⟩ := List.pairwise_cons.1 htokens
    rw [List.foldlM_cons]
    refine (take_laid (h.mono (hfirst t List.mem_cons_self))).bind fun r' h' => ?_
    exact ih h' hnext hrest

theorem complete_laid (h : Row lo hi r.body) :
    Yields (fun program => ∃ lo hi, Row lo hi program) (fun _ => True) r.complete := by
  unfold complete
  split
  · exact ⟨lo, hi, h⟩
  · trivial
  · trivial

theorem finish_laid (h : r.Laid hi) :
    Yields (fun program => ∃ lo hi, Row lo hi program) (fun _ => True) r.finish := by
  obtain ⟨lo, hlo, hlevels, hends⟩ := h
  have hnode : ∀ o : Opening, Waits lo hi r.body o →
      Yields (fun program => ∃ lo hi, Row lo hi program) (fun _ => True)
        (do (r.add (← o.node)).complete) := by
    intro o ho
    refine (Opening.node_laid ho.opening).bind fun n hn => ?_
    exact complete_laid (ho.before.snoc ho.starts ho.opening.starts hn.1 hn.2)
  unfold finish
  cases hr : r.mode <;> rw [hr] at hends
  case statements => exact complete_laid hends
  case comment p => exact complete_laid (Row.addLeaf hends rfl (fun _ => rfl) _)
  case line p depth text => exact complete_laid (Row.addLeaf hends rfl (fun _ => rfl) _)
  case named o => exact hnode o hends
  case arguments o => exact hnode o hends
  all_goals trivial

end Reading

/-- In a program, imports stand in the order of the statements and arguments around them. -/
theorem parse_row {d : Delimiters} {tokens : List Token} {program : List Node}
    (htokens : tokens.Pairwise fun s t => s.position ≤ t.position)
    (h : parse d tokens = .ok program) : ∃ lo hi, Row lo hi program := by
  have hstart : Reading.initial.Laid .start := ⟨.start, le_rfl, trivial, .nil⟩
  have hfirst : ∀ t ∈ tokens, Position.start ≤ t.position := fun t _ => t.position.start_le
  have hparse : Yields (fun program => ∃ lo hi, Row lo hi program) (fun _ => True)
      (parse d tokens) :=
    (Reading.foldlM_take_laid hstart hfirst htokens).bind fun r hr =>
      Reading.finish_laid hr.choose_spec
  rwa [h] at hparse

end Stencil
