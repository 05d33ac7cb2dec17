import Stencil.Proofs.Layout

/-! From which tokens the nodes of a program were read: each stands at a place of the tokens, and
literal text, expressions and comments hold what certain tokens say. A reading that is refused is
refused at such a place, too. -/
namespace Stencil

section Evidence

variable (tokens : List Token)

/-- The beginning, or a place in a token. -/
def PlaceIn (p : Position) : Prop :=
  p = .start ∨ ∃ t ∈ tokens, ∃ line, line <+: t.text ∧ p = t.position.after line

/-- A command, whose escape is at `p`, and behind whose name the tokens go on with `back`. -/
def CommandAt (name : Text) (p : Position) (back : List Token) : Prop :=
  ∃ front e n, tokens = front ++ e :: n :: back ∧ e.kind = .escape ∧ e.position = p ∧
    n.kind = .commandName ∧ n.text = name

/-- A group that `opened` begins after `front`, up to the end that matches. -/
def GroupAfter (front : List Token) (opened : Token) (group : List Token) : Prop :=
  ∃ closed back, tokens = front ++ opened :: (group ++ closed :: back) ∧
    opened.kind = .argStart ∧ groupsOpen? group = some 0 ∧ closed.kind = .argEnd

/-- A comment of the rest of its line, behind whose name stands `back`. -/
def LineAt (p : Position) (back : List Token) : Prop :=
  CommandAt tokens Heading.commentName p back ∧ ∀ next ∈ back.head?, next.kind ≠ .argStart

variable (d : Delimiters)

/-- What a layer without parts was read from. -/
inductive Leaf : Form Node → Position → Prop where
  | raw {t : Token} (h : t ∈ tokens) (hkind : t.kind = .raw) :
    Leaf (.raw (Reading.unescape d t.text)) t.position
  | rest {front between back : List Token} {p : Position} {t : Token} {line rest : Text}
      (hcommand : CommandAt front Heading.commentName p between)
      (hnext : ∀ next ∈ (between ++ [t]).head?, next.kind ≠ .argStart)
      (h : tokens = front ++ t :: back) (hkind : t.kind = .raw)
      (htext : t.text = line ++ '\n' :: rest) (hline : '\n' ∉ line) :
    Leaf (.raw (Reading.unescape d ('\n' :: rest))) (t.position.after line)
  | expression {t : Token} (h : t ∈ tokens) (hkind : t.kind = .expression) :
    Leaf (.expression (Reading.sourceOf d t.text)) t.position
  | source {front group : List Token} {opened : Token} {p : Position}
      (hcommand : CommandAt front Heading.sourceName p [])
      (hgroup : GroupAfter tokens front opened group) :
    Leaf (.expression (group.flatMap Token.text)) p
  | argument {front group : List Token} {opened : Token}
      (hgroup : GroupAfter tokens front opened group) :
    Leaf (.expression (group.flatMap Token.text)) opened.position
  | comment {front group : List Token} {opened : Token} {p : Position}
      (hcommand : CommandAt front Heading.commentName p [])
      (hgroup : GroupAfter tokens front opened group) :
    Leaf (.comment (group.flatMap Token.text)) p
  | line {back : List Token} {p : Position} {text : Text}
      (hcomment : LineAt tokens p back)
      (htext : text <+: back.flatMap Token.text) : Leaf (.comment text) p

/-- A node and its parameter list stand at places of the tokens, which say what text it holds. -/
structure Node.ReadFrom (n : Node) : Prop where
  place : PlaceIn tokens n.location.position
  params : ∀ p ∈ n.form.params?, PlaceIn tokens p.location.position
  leaf : n.form.holdsText = true → Leaf tokens d n.form n.location.position

end Evidence

section Places

variable {tokens : List Token} {t : Token}

theorem placeIn_position (h : t ∈ tokens) : PlaceIn tokens t.position :=
  .inr ⟨t, h, [], List.nil_prefix, rfl⟩

theorem CommandAt.placeIn {name : Text} {p : Position} {front back : List Token}
    (h : CommandAt front name p back) (hfront : front <+: tokens) : PlaceIn tokens p := by
  obtain ⟨_, e, n, rfl, -, rfl, -⟩ := h
  exact placeIn_position (hfront.subset (by simp))

theorem CommandAt.append {name : Text} {p : Position} {front back : List Token}
    (h : CommandAt front name p back) (more : List Token) :
    CommandAt (front ++ more) name p (back ++ more) := by
  obtain ⟨front', e, n, rfl, he⟩ := h
  exact ⟨front', e, n, by simp, he⟩

end Places

section Invariant

variable (tokens : List Token) (d : Delimiters)

/-- All that stands in the node was read from the tokens. -/
def Node.Sourced (n : Node) : Prop := n.Everywhere (Node.ReadFrom tokens d)

structure Params.Sourced (p : Params Node) : Prop where
  values : ∀ v ∈ p.values, v.Sourced tokens d
  place : PlaceIn tokens p.location.position

structure Opening.Sourced (o : Opening) : Prop where
  place : PlaceIn tokens o.position
  args : ∀ n ∈ o.args, n.Sourced tokens d
  params : ∀ p ∈ o.params, p.Sourced tokens d

def Slot.Sourced : Slot → Prop
  | .argument opened => PlaceIn tokens opened
  | .value params _ assigned => params.Sourced tokens d ∧ PlaceIn tokens assigned

structure Level.Sourced (level : Level) : Prop where
  before : ∀ n ∈ level.before, n.Sourced tokens d
  opening : level.opening.Sourced tokens d
  slot : level.slot.Sourced tokens d

/-- The command whose group is kept as text, which begins after `front`. -/
def Kept.Sourced (front : List Token) : Kept → Prop
  | .comment p => CommandAt front Heading.commentName p []
  | .source p => CommandAt front Heading.sourceName p []
  | .argument o => o.Sourced tokens d

/-- What the tokens that were `seen` say of a command that is not finished. -/
def Mode.Sourced (seen : List Token) : Mode → Prop
  | .statements => True
  | .name p => ∃ front e, seen = front ++ [e] ∧ e.kind = .escape ∧ e.position = p
  | .source p => CommandAt seen Heading.sourceName p []
  | .comment p => CommandAt seen Heading.commentName p []
  | .line p _ text => ∃ next back, LineAt seen p (next :: back) ∧
    (next :: back).flatMap Token.text = text
  | .kept opened depth text as => ∃ front o group, seen = front ++ o :: group ∧
    o.kind = .argStart ∧ o.position = opened ∧ groupsOpen? group = some depth ∧
    group.flatMap Token.text = text ∧ as.Sourced tokens d front
  | .named o | .arguments o => o.Sourced tokens d
  | .key o params | .keyed o params _ => o.Sourced tokens d ∧ params.Sourced tokens d

/-- What was read when `seen` were taken was read from the tokens. -/
structure Reading.Sourced (seen : List Token) (r : Reading) : Prop where
  body : ∀ n ∈ r.body, n.Sourced tokens d
  levels : ∀ level ∈ r.levels, level.Sourced tokens d
  mode : r.mode.Sourced tokens d seen
  last : PlaceIn tokens r.last

end Invariant

section Nodes

variable {tokens : List Token} {d : Delimiters} {p : Position}

theorem sourced_layer {form : Form Node} (hplace : PlaceIn tokens p)
    (hform : form.holdsText = false) (hparts : ∀ q ∈ form.parts, q.Sourced tokens d)
    (hparams : ∀ params ∈ form.params?, PlaceIn tokens params.location.position) :
    (Node.mk form p.here).Sourced tokens d :=
  Node.everywhere_iff.2 ⟨⟨hplace, hparams, fun h => by simp [hform] at h⟩, hparts⟩

theorem sourced_leaf {form : Form Node} (hplace : PlaceIn tokens p) (hleaf : Leaf tokens d form p) :
    (Node.mk form p.here).Sourced tokens d := by
  have hbare : form.parts = [] ∧ form.params? = none := by cases hleaf <;> exact ⟨rfl, rfl⟩
  refine Node.everywhere_iff.2 ⟨⟨hplace, ?_, fun _ => hleaf⟩, ?_⟩
  · simp [hbare.2]
  · simp [hbare.1]

theorem sourced_group {body : List Node} (hplace : PlaceIn tokens p)
    (hbody : ∀ n ∈ body, n.Sourced tokens d) : (Node.mk (.group body) p.here).Sourced tokens d :=
  sourced_layer hplace rfl (by simpa using hbody) (by simp [Form.params?])

theorem Params.Sourced.insert {params : Params Node} (h : params.Sourced tokens d) (key : Text)
    {value : Option Node} (hv : ∀ v ∈ value, v.Sourced tokens d) :
    (params.insert key value).Sourced tokens d := by
  refine ⟨fun v hv' => ?_, h.place⟩
  obtain ⟨k, hk⟩ := Params.mem_values.1 hv'
  obtain hk | hk := Entries.mem_insert hk
  · exact hv v (Prod.mk.inj hk).2.symm
  · exact h.values v (Params.mem_values.2 ⟨k, hk⟩)

namespace Opening

variable {o : Opening}

theorem Sourced.addArgument (h : o.Sourced tokens d) {arg : Node} (ha : arg.Sourced tokens d) :
    (o.addArgument arg).Sourced tokens d := by
  refine ⟨h.place, fun n hn => ?_, h.params⟩
  obtain hn | hn := List.mem_append.1 hn
  · exact h.args n hn
  · exact List.mem_singleton.1 hn ▸ ha

theorem Sourced.withParams (h : o.Sourced tokens d) {params : Params Node}
    (hp : params.Sourced tokens d) : Sourced tokens d { o with params := some params } :=
  ⟨h.place, h.args, by rintro _ ⟨⟩; exact hp⟩

theorem Sourced.placeIn_of_blamedAt (h : o.Sourced tokens d) (hp : o.BlamedAt p) :
    PlaceIn tokens p := by
  obtain rfl | ⟨arg, harg, rfl | ⟨n, hn, rfl⟩⟩ := hp
  · exact h.place
  · exact (h.args arg harg).self.place
  · exact ((h.args arg harg).part hn).self.place

/-- A command that is read to its end was read from the tokens, or is refused at a place of them. -/
theorem node_sourced (h : o.Sourced tokens d) :
    Yields (Node.Sourced tokens d) (fun fault => PlaceIn tokens fault.position) o.node := by
  refine o.node_makes.imp (fun n hn => ?_) fun fault hfault => h.placeIn_of_blamedAt hfault.place
  obtain ⟨form, rfl, hform⟩ := hn
  have hempty : Params.Sourced tokens d .empty :=
    ⟨fun v hv => by simp [Params.empty, Params.values] at hv, .inl rfl⟩
  have hparams := hform.forall_params hempty h.params
  have hown : ∀ q ∈ form.ownParts, q.Sourced tokens d := by
    refine hform.forall_mem_ownParts h.args ?_
    rintro statements l hbody n hn -
    exact hbody.part (by simpa using hn)
  refine sourced_layer h.place hform.bare ?_ fun p hp => (hparams p hp).place
  exact Form.forall_mem_parts.2 ⟨hown, fun p hp => (hparams p hp).values⟩

end Opening

end Nodes

namespace Reading

variable {tokens seen : List Token} {d : Delimiters} {r : Reading} {t : Token}

/-- A reading from the tokens goes on so, or is refused at a place of them. -/
def GoesOn (tokens : List Token) (d : Delimiters) (seen : List Token)
    (next : Except (Fault ParseCause) Reading) : Prop :=
  Yields (Sourced tokens d seen) (fun fault => PlaceIn tokens fault.position) next

theorem Sourced.add (h : r.Sourced tokens d seen) {n : Node} (hn : n.Sourced tokens d)
    (seen' : List Token) : (r.add n).Sourced tokens d seen' := by
  refine ⟨fun m hm => ?_, h.levels, trivial, h.last⟩
  obtain hm | hm := List.mem_append.1 hm
  · exact h.body m hm
  · exact List.mem_singleton.1 hm ▸ hn

theorem afterEntry_sourced {seen' : List Token} (h : r.Sourced tokens d seen) {o : Opening}
    {params : Params Node} (ht : t ∈ tokens) (ho : o.Sourced tokens d)
    (hp : params.Sourced tokens d) : GoesOn tokens d seen' (r.afterEntry o params t) := by
  unfold afterEntry
  split
  · exact ⟨h.body, h.levels, ⟨ho, hp⟩, h.last⟩
  · exact ⟨h.body, h.levels, ho.withParams hp, h.last⟩
  · exact placeIn_position ht

theorem close_sourced {seen' : List Token} (h : r.Sourced tokens d seen) (ht : t ∈ tokens) :
    GoesOn tokens d seen' (r.close t) := by
  unfold close
  split
  · exact placeIn_position ht
  · next before o opened levels hlevels =>
    obtain ⟨hlevel, hrest⟩ := List.forall_mem_cons.1 (hlevels ▸ h.levels)
    split
    · exact ⟨hlevel.before, hrest, hlevel.opening.addArgument (sourced_group hlevel.slot h.body),
        h.last⟩
    · exact placeIn_position ht
  · next before o params key assigned levels hlevels =>
    obtain ⟨hlevel, hrest⟩ := List.forall_mem_cons.1 (hlevels ▸ h.levels)
    have hbefore : Sourced tokens d seen ⟨levels, before, .statements, r.last⟩ :=
      ⟨hlevel.before, hrest, trivial, h.last⟩
    refine afterEntry_sourced hbefore ht hlevel.opening (hlevel.slot.1.insert key ?_)
    rintro _ ⟨⟩
    exact sourced_group hlevel.slot.2 h.body

theorem statement_sourced (h : r.Sourced tokens d seen) (ht : t ∈ tokens) :
    GoesOn tokens d (seen ++ [t]) (r.statement d t) := by
  have hplace := placeIn_position ht
  unfold statement
  split
  · next hkind => exact h.add (sourced_leaf hplace (.raw ht hkind)) _
  · next hkind => exact h.add (sourced_leaf hplace (.expression ht hkind)) _
  · next hkind => exact ⟨h.body, h.levels, ⟨seen, t, rfl, hkind, rfl⟩, h.last⟩
  · exact close_sourced h ht

theorem commentLine_sourced {p : Position} {back rest : List Token} (depth : Nat) {text : Text}
    (h : r.Sourced tokens d seen) (htokens : tokens = seen ++ t :: rest)
    (hcommand : CommandAt seen Heading.commentName p back)
    (hnext : ∀ next ∈ (back ++ [t]).head?, next.kind ≠ .argStart)
    (htext : back.flatMap Token.text = text) :
    GoesOn tokens d (seen ++ [t]) (r.commentLine d p depth text t) := by
  have ht : t ∈ tokens := by simp [htokens]
  have hplace : PlaceIn tokens p := hcommand.placeIn ⟨t :: rest, htokens.symm⟩
  have hline : ∀ more, LineAt (seen ++ t :: more) p (back ++ t :: more) :=
    fun more => ⟨hcommand.append (t :: more), by cases back <;> exact hnext⟩
  have hcomment : ∀ line, line <+: t.text →
      (commentNode (text ++ line) p).Sourced tokens d := by
    intro line hle
    refine sourced_leaf hplace (.line (htokens ▸ hline rest) ?_)
    rw [List.flatMap_append, htext, List.flatMap_cons]
    exact (List.prefix_append_right_inj _).2 (hle.trans (List.prefix_append _ _))
  have hclose : GoesOn tokens d (seen ++ [t]) ((r.add (commentNode text p)).close t) := by
    have hempty := hcomment [] List.nil_prefix
    rw [List.append_nil] at hempty
    exact close_sourced (h.add hempty seen) ht
  have goOn : ∀ depth, GoesOn tokens d (seen ++ [t])
      (pure { r with mode := .line p depth (text ++ t.text) }) := by
    refine fun depth => ⟨h.body, h.levels, ?_, h.last⟩
    have htaken : (back ++ [t]).flatMap Token.text = text ++ t.text := by simp [htext]
    cases back with
    | nil => exact ⟨t, [], hline [], htaken⟩
    | cons next back => exact ⟨next, back ++ [t], hline [], htaken⟩
  unfold commentLine
  dsimp only
  split
  · exact hclose
  · exact hclose
  · exact hclose
  · exact goOn _
  · exact goOn _
  · exact goOn _
  · exact goOn _
  · next hkind =>
    split
    · exact goOn _
    · next line rest' hcut =>
      obtain ⟨heq, hnot⟩ := Text.cutAt?_eq_some_iff.1 hcut
      have hle : line <+: t.text := heq ▸ List.prefix_append _ _
      have hbreak : PlaceIn tokens (t.position.after line) := .inr ⟨t, ht, line, hle, rfl⟩
      have hrest : (rawNode d ('\n' :: rest') (t.position.after line)).Sourced tokens d :=
        sourced_leaf hbreak (.rest hcommand hnext htokens hkind heq hnot)
      have hboth := (h.add (hcomment line hle) seen).add hrest (seen ++ [t])
      exact ⟨hboth.body, hboth.levels, trivial, hbreak⟩
  · exact goOn _

theorem argument_sourced {rest : List Token} {o : Opening} (h : r.Sourced tokens d seen)
    (htokens : tokens = seen ++ t :: rest) (ho : o.Sourced tokens d) :
    GoesOn tokens d (seen ++ [t]) (r.argument d o t) := by
  have ht : t ∈ tokens := by simp [htokens]
  unfold argument
  split
  · next hkind =>
    split
    · exact ⟨h.body, h.levels, ⟨seen, t, [], rfl, hkind, rfl, rfl, rfl, ho⟩, h.last⟩
    · refine ⟨by simp, ?_, trivial, h.last⟩
      exact List.forall_mem_cons.2 ⟨⟨h.body, ho, placeIn_position ht⟩, h.levels⟩
  · exact (Opening.node_sourced ho).bind fun n hn => statement_sourced (h.add hn seen) ht

theorem keep_sourced {front group back : List Token} {opened closed : Token} {as : Kept}
    (seen' : List Token) (h : r.Sourced tokens d seen)
    (htokens : tokens = front ++ opened :: (group ++ closed :: back))
    (hopened : opened.kind = .argStart) (hgroup : groupsOpen? group = some 0)
    (hclosed : closed.kind = .argEnd) (has : as.Sourced tokens d front) :
    (r.keep opened.position (group.flatMap Token.text) as).Sourced tokens d seen' := by
  have hafter : GroupAfter tokens front opened group :=
    ⟨closed, back, htokens, hopened, hgroup, hclosed⟩
  have hfront : front <+: tokens := htokens ▸ List.prefix_append _ _
  cases as with
  | comment p => exact h.add (sourced_leaf (has.placeIn hfront) (.comment has hafter)) _
  | source p => exact h.add (sourced_leaf (has.placeIn hfront) (.source has hafter)) _
  | argument o =>
    have hplace : PlaceIn tokens opened.position := placeIn_position (by simp [htokens])
    exact ⟨h.body, h.levels, Opening.Sourced.addArgument has
      (sourced_leaf hplace (.argument hafter)), h.last⟩

theorem take_kept_sourced {rest : List Token} {opened : Position} {depth : Nat} {text : Text}
    {as : Kept} (hmode : r.mode = .kept opened depth text as) (h : r.Sourced tokens d seen)
    (htokens : tokens = seen ++ t :: rest) : GoesOn tokens d (seen ++ [t]) (r.take d t) := by
  have hplace : PlaceIn tokens t.position := placeIn_position (by simp [htokens])
  have hkept := h.mode
  rw [hmode] at hkept
  obtain ⟨front, o, group, rfl, hkind, rfl, hgroup, rfl, has⟩ := hkept
  have h' : Sourced tokens d (front ++ o :: group) { r with last := t.position } :=
    ⟨h.body, h.levels, h.mode, hplace⟩
  have goOn : ∀ n, groupsAfter? depth t.kind = some n → GoesOn tokens d (front ++ o :: group ++ [t])
      (pure { r with
        mode := .kept o.position n (group.flatMap Token.text ++ t.text) as
        last := t.position }) := by
    refine fun n hn => ⟨h.body, h.levels,
      ⟨front, o, group ++ [t], by simp, hkind, rfl, ?_, ?_, has⟩, hplace⟩
    · rw [groupsOpen?_append_singleton, hgroup]
      exact hn
    · simp
  simp only [take, hmode]
  split
  · next hend =>
    have hgroups : tokens = front ++ o :: (group ++ t :: rest) := by simpa using htokens
    exact keep_sourced _ (hmode ▸ h') hgroups hkind hgroup hend has
  · next n hend => exact goOn n (by simp [groupsAfter?, hend])
  · next hstart => exact goOn _ (by simp [groupsAfter?, hstart])
  · next hstart hzero hsucc =>
    refine goOn _ ?_
    unfold groupsAfter?
    split
    · next hkind' => exact (hstart hkind').elim
    · next hend => exact absurd (Nat.succ_pred_eq_of_ne_zero (hzero hend)).symm (hsucc _ hend)
    · rfl

/-- Whatever token is taken, what was read was read from the tokens. -/
theorem take_sourced {rest : List Token} (h : r.Sourced tokens d seen)
    (htokens : tokens = seen ++ t :: rest) : GoesOn tokens d (seen ++ [t]) (r.take d t) := by
  have ht : t ∈ tokens := by simp [htokens]
  have hplace := placeIn_position ht
  have h' : Sourced tokens d seen { r with last := t.position } :=
    ⟨h.body, h.levels, h.mode, hplace⟩
  have goOn : ∀ mode : Mode, mode.Sourced tokens d (seen ++ [t]) →
      GoesOn tokens d (seen ++ [t]) (pure { r with mode := mode, last := t.position }) :=
    fun _ hm => ⟨h.body, h.levels, hm, hplace⟩
  have hmode := h.mode
  by_cases hkept : ∃ opened depth text as, r.mode = .kept opened depth text as
  · obtain ⟨opened, depth, text, as, hr⟩ := hkept
    exact take_kept_sourced hr h htokens
  cases hr : r.mode <;> simp only [take, hr] <;> rw [hr] at hmode
  case statements => exact statement_sourced (hr ▸ h') ht
  case name p =>
    obtain ⟨front, e, rfl, he, rfl⟩ := hmode
    split
    · next hkind =>
      have hcommand : ∀ name, t.text = name → CommandAt (front ++ [e] ++ [t]) name e.position [] :=
        fun name hname => ⟨front, e, t, by simp, he, rfl, hkind, hname⟩
      have hfresh : ∀ construct,
          Opening.Sourced tokens d ⟨construct, t.text, e.position, none, []⟩ :=
        fun _ => ⟨placeIn_position (by simp [htokens]), by simp, by simp⟩
      split
      · next hname => exact goOn _ (hcommand _ (Heading.eq_commentName hname))
      · next hname => exact goOn _ (hcommand _ (Heading.eq_sourceName hname))
      · exact goOn _ (hfresh _)
      · exact goOn _ (hfresh _)
    · exact hplace
  case source p =>
    split
    · next hkind => exact goOn _ ⟨seen, t, [], rfl, hkind, rfl, rfl, rfl, hmode⟩
    · exact hplace
  case comment p =>
    split
    · next hkind => exact goOn _ ⟨seen, t, [], rfl, hkind, rfl, rfl, rfl, hmode⟩
    · next hkind =>
      have hnext : ∀ next ∈ [t].head?, next.kind ≠ .argStart := by
        rintro _ ⟨⟩
        exact hkind
      exact commentLine_sourced 0 (hr ▸ h') htokens hmode hnext rfl
  case line p depth text =>
    obtain ⟨next, back, hline, htext⟩ := hmode
    exact commentLine_sourced depth (hr ▸ h') htokens hline.1 hline.2 htext
  case kept opened depth text as => exact absurd ⟨_, _, _, _, hr⟩ hkept
  case named o =>
    split
    · exact goOn _ ⟨hmode, by simp [Params.values], hplace⟩
    · exact argument_sourced (hr ▸ h') htokens hmode
  case arguments o => exact argument_sourced (hr ▸ h') htokens hmode
  case key o params =>
    split
    · exact goOn _ (hmode.1.withParams hmode.2)
    · exact goOn _ hmode
    · exact hplace
  case keyed o params key =>
    split
    · refine yields_pure.2 ⟨by simp, ?_, trivial, hplace⟩
      exact List.forall_mem_cons.2 ⟨⟨h.body, hmode.1, hmode.2, hplace⟩, h.levels⟩
    · exact afterEntry_sourced (hr ▸ h') ht hmode.1 (hmode.2.insert key (by simp))

theorem foldlM_take_sourced {rest : List Token} (h : r.Sourced tokens d seen)
    (htokens : tokens = seen ++ rest) :
    GoesOn tokens d tokens (rest.foldlM (fun r t => r.take d t) r) := by
  induction rest generalizing seen r with
  | nil =>
    rw [List.append_nil] at htokens
    exact htokens ▸ h
  | cons t rest ih =>
    rw [List.foldlM_cons]
    exact (take_sourced h htokens).bind fun r' h' => ih h' (by simp [htokens])

theorem complete_sourced (h : r.Sourced tokens d seen) :
    Yields (fun program => ∀ n ∈ program, n.Sourced tokens d)
      (fun fault => PlaceIn tokens fault.position) r.complete := by
  unfold complete
  split
  · exact h.body
  · exact h.last
  · exact h.last

theorem finish_sourced (h : r.Sourced tokens d tokens) :
    Yields (fun program => ∀ n ∈ program, n.Sourced tokens d)
      (fun fault => PlaceIn tokens fault.position) r.finish := by
  have hmode := h.mode
  have hnode : ∀ o : Opening, o.Sourced tokens d →
      Yields (fun program => ∀ n ∈ program, n.Sourced tokens d)
        (fun fault => PlaceIn tokens fault.position) (do (r.add (← o.node)).complete) :=
    fun o ho => (Opening.node_sourced ho).bind fun n hn => complete_sourced (h.add hn tokens)
  have hcomment : ∀ p back, LineAt tokens p back →
      Yields (fun program => ∀ n ∈ program, n.Sourced tokens d)
        (fun fault => PlaceIn tokens fault.position)
        (r.add (commentNode (back.flatMap Token.text) p)).complete := fun p back hline =>
    complete_sourced (h.add (sourced_leaf (hline.1.placeIn List.prefix_rfl)
      (.line hline List.prefix_rfl)) tokens)
  unfold finish
  cases hr : r.mode <;> rw [hr] at hmode
  case statements => exact complete_sourced h
  case name p => exact h.last
  case source p => exact h.last
  case comment p => exact hcomment p [] ⟨hmode, by simp⟩
  case line p depth text =>
    obtain ⟨next, back, hline, rfl⟩ := hmode
    exact hcomment p _ hline
  case kept opened depth text as =>
    obtain ⟨front, o, group, rfl, -, rfl, -⟩ := hmode
    exact placeIn_position (by simp)
  case named o => exact hnode o hmode
  case arguments o => exact hnode o hmode
  case key o params => exact h.last
  case keyed o params key => exact h.last

end Reading

/-- All nodes of a program were read from its tokens; other tokens are refused at a place of
them. -/
theorem parse_sourced (d : Delimiters) (tokens : List Token) :
    Yields (fun program => ∀ n ∈ program, n.Sourced tokens d)
      (fun fault => PlaceIn tokens fault.position) (parse d tokens) := by
  have hstart : Reading.initial.Sourced tokens d [] :=
    ⟨by simp [Reading.initial], by simp [Reading.initial], trivial, .inl rfl⟩
  exact (Reading.foldlM_take_sourced hstart rfl).bind fun r hr => Reading.finish_sourced hr

section Places

variable {d : Delimiters} {t : Text} {tokens : List Token} {p : Position}

/-- A place in a text. -/
def PlaceOf (t : Text) (p : Position) : Prop := ∃ before, before <+: t ∧ p = .endOf before

theorem text_of_tokenize (h : tokenize d t = .ok tokens) : t = tokens.flatMap Token.text := by
  obtain ⟨hcause, rfl⟩ := tokenize_eq_ok_iff.1 h
  rw [Token.flatMap_text_place, d.spelling_lex hcause]

theorem position_of_tokenize {front back : List Token} {token : Token}
    (h : tokenize d t = .ok (front ++ token :: back)) :
    token.position = .endOf (front.flatMap Token.text) := by
  rw [Token.position_of_place_eq (tokenize_eq_ok_iff.1 h).2, Position.start_after]

theorem placeOf_of_placeIn (h : tokenize d t = .ok tokens) (hp : PlaceIn tokens p) :
    PlaceOf t p := by
  obtain rfl | ⟨token, htoken, line, ⟨rest, hline⟩, rfl⟩ := hp
  · exact ⟨[], List.nil_prefix, rfl⟩
  · obtain ⟨front, back, rfl⟩ := List.append_of_mem htoken
    refine ⟨front.flatMap Token.text ++ line, ?_, ?_⟩
    · rw [text_of_tokenize h, List.flatMap_append, List.flatMap_cons, ← hline, List.append_assoc]
      exact (List.prefix_append_right_inj _).2 (List.prefix_append _ _)
    · rw [position_of_tokenize h, ← Position.start_after, ← Position.start_after,
        Position.after_append]

theorem placeOf_of_tokenize {fault : Fault LexCause} (h : tokenize d t = .error fault) :
    PlaceOf t fault.position := by
  obtain ⟨hcause, hposition⟩ := tokenize_eq_error_iff.1 h
  obtain ⟨rest, hrest, -⟩ := d.lex_stopsBetween hcause
  exact ⟨_, ⟨rest, hrest⟩, by rw [← hposition, Position.start_after]⟩

/-- A node stands at a place of a text, and so does its parameter list. -/
def Node.PlacedIn (t : Text) (n : Node) : Prop :=
  PlaceOf t n.location.position ∧ ∀ p ∈ n.form.params?, PlaceOf t p.location.position

/-- A program, or the fault that its tokens are refused for, stands at places in the text. -/
theorem parse_placed (h : tokenize d t = .ok tokens) :
    Yields (fun program => ∀ n ∈ program, n.Everywhere (Node.PlacedIn t))
      (fun fault => PlaceOf t fault.position) (parse d tokens) := by
  refine (parse_sourced d tokens).imp (fun program hprogram n hn m hm => ?_) fun fault hfault =>
    placeOf_of_placeIn h hfault
  have hread : m.ReadFrom tokens d := hprogram n hn m hm
  exact ⟨placeOf_of_placeIn h hread.place, fun p hp => placeOf_of_placeIn h (hread.params p hp)⟩

end Places

end Stencil
