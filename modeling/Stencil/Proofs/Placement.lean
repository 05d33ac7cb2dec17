import Stencil.Proofs.Parsing

/-! What holds of all nodes of a program that was read, as each node keeps it that the reader makes
of others: imports stand among the statements of the program and those of groups and nowhere else,
and no file is recorded. -/
namespace Stencil

/-- What the nodes that are read keep: `S` of statements, and `T` of parts of commands. -/
structure Shapes (S T : Node → Prop) : Prop where
  layer : ∀ {form : Form Node} (p : Position), (∀ q ∈ form.parts, T q) →
    (∀ params ∈ form.params?, params.location.file = none) → S (.mk form p.here)
  group : ∀ {body : List Node} (p : Position), (∀ n ∈ body, S n) → T (.mk (.group body) p.here)
  statements : ∀ {body : List Node} {l : Location}, T (.mk (.group body) l) → ∀ n ∈ body, S n
  expression : ∀ (source : Text) (p : Position), T (.mk (.expression source) p.here)
  case : ∀ {value body : Node} {l : Location}, S (.mk (.case value body) l) →
    T (.mk (.case value body) l)

variable {S T : Node → Prop}

theorem Shapes.leaf (h : Shapes S T) {form : Form Node} (hparts : form.parts = [])
    (hparams : form.params? = none) (p : Position) : S (.mk form p.here) :=
  h.layer p (by simp [hparts]) (by simp [hparams])

namespace Params

/-- The values of a list of parameters are parts, and its file is not known. -/
structure HasParts (T : Node → Prop) (p : Params Node) : Prop where
  values : ∀ v ∈ p.values, T v
  file : p.location.file = none

theorem hasParts_nil (p : Position) : HasParts T ⟨[], p.here⟩ :=
  ⟨fun v hv => by simp [Params.values] at hv, rfl⟩

theorem HasParts.insert {p : Params Node} (h : p.HasParts T) (key : Text) {value : Option Node}
    (hv : ∀ v ∈ value, T v) : (p.insert key value).HasParts T := by
  refine ⟨fun v hv' => ?_, h.file⟩
  obtain ⟨k, hk⟩ := mem_values.1 hv'
  obtain hk | hk := Entries.mem_insert hk
  · exact hv v (Prod.mk.inj hk).2.symm
  · exact h.values v (mem_values.2 ⟨k, hk⟩)

end Params

namespace Opening

/-- The arguments and the parameters read so far are parts. -/
structure HasParts (T : Node → Prop) (o : Opening) : Prop where
  args : ∀ n ∈ o.args, T n
  params : ∀ p ∈ o.params, p.HasParts T

variable {o : Opening}

theorem HasParts.addArgument (h : o.HasParts T) {arg : Node} (ha : T arg) :
    (o.addArgument arg).HasParts T := by
  refine ⟨fun n hn => ?_, h.params⟩
  obtain hn | hn := List.mem_append.1 hn
  · exact h.args n hn
  · exact List.mem_singleton.1 hn ▸ ha

theorem HasParts.withParams (h : o.HasParts T) {p : Params Node} (hp : p.HasParts T) :
    HasParts T { o with params := some p } :=
  ⟨h.args, by rintro _ ⟨⟩; exact hp⟩

theorem node_yields (hST : Shapes S T) (h : o.HasParts T) : Yields S (fun _ => True) o.node := by
  refine o.node_makes.imp (fun n hn => ?_) fun _ _ => trivial
  obtain ⟨form, rfl, hform⟩ := hn
  have hparams : ∀ p ∈ form.params?, p.HasParts T :=
    hform.forall_params (Params.hasParts_nil .start) h.params
  have hown : ∀ q ∈ form.ownParts, T q := by
    refine hform.forall_mem_ownParts h.args ?_
    rintro statements l hbody n hn ⟨value, body, l', rfl⟩
    exact hST.case (hST.statements hbody _ hn)
  exact hST.layer _ (Form.forall_mem_parts.2 ⟨hown, fun p hp => (hparams p hp).values⟩)
    fun p hp => (hparams p hp).file

end Opening

/-- The parameters that wait for a value are parts. -/
def Slot.HasParts (T : Node → Prop) : Slot → Prop
  | .argument _ => True
  | .value params _ _ => params.HasParts T

/-- What was read of a command whose argument is kept as text are parts. -/
def Kept.HasParts (T : Node → Prop) : Kept → Prop
  | .argument o => o.HasParts T
  | .comment _ | .source _ => True

/-- What was read of a command that is not finished are parts. -/
def Mode.HasParts (T : Node → Prop) : Mode → Prop
  | .named o | .arguments o => o.HasParts T
  | .kept _ _ _ as => as.HasParts T
  | .key o params | .keyed o params _ => o.HasParts T ∧ params.HasParts T
  | _ => True

/-- What waits is made of statements and parts. -/
structure Level.Shaped (S T : Node → Prop) (level : Level) : Prop where
  before : ∀ n ∈ level.before, S n
  opening : level.opening.HasParts T
  slot : level.slot.HasParts T

namespace Reading

/-- What was read is made of statements and parts. -/
structure Shaped (S T : Node → Prop) (r : Reading) : Prop where
  body : ∀ n ∈ r.body, S n
  levels : ∀ level ∈ r.levels, level.Shaped S T
  mode : r.mode.HasParts T

variable {d : Delimiters} {r : Reading} {t : Token}

theorem Shaped.add (h : r.Shaped S T) {n : Node} (hn : S n) : (r.add n).Shaped S T := by
  refine ⟨fun m hm => ?_, h.levels, trivial⟩
  obtain hm | hm := List.mem_append.1 hm
  · exact h.body m hm
  · exact List.mem_singleton.1 hm ▸ hn

theorem afterEntry_shaped (h : r.Shaped S T) {o : Opening} {params : Params Node}
    (ho : o.HasParts T) (hp : params.HasParts T) :
    Yields (Shaped S T) (fun _ => True) (r.afterEntry o params t) := by
  unfold afterEntry
  split
  · exact ⟨h.body, h.levels, ho, hp⟩
  · exact ⟨h.body, h.levels, ho.withParams hp⟩
  · trivial

section Steps

variable (hST : Shapes S T)

include hST

theorem Shaped.addLeaf (h : r.Shaped S T) {form : Form Node} (hparts : form.parts = [])
    (hparams : form.params? = none) (p : Position) : (r.add (.mk form p.here)).Shaped S T :=
  h.add (hST.leaf hparts hparams p)

theorem close_shaped (h : r.Shaped S T) : Yields (Shaped S T) (fun _ => True) (r.close t) := by
  unfold close
  split
  · trivial
  · next before o opened levels hlevels =>
    obtain ⟨hlevel, hrest⟩ := List.forall_mem_cons.1 (hlevels ▸ h.levels)
    split
    · exact ⟨hlevel.before, hrest, hlevel.opening.addArgument (hST.group _ h.body)⟩
    · trivial
  · next before o params key assigned levels hlevels =>
    obtain ⟨hlevel, hrest⟩ := List.forall_mem_cons.1 (hlevels ▸ h.levels)
    have hbefore : Shaped S T ⟨levels, before, .statements, r.last⟩ :=
      ⟨hlevel.before, hrest, trivial⟩
    refine afterEntry_shaped hbefore hlevel.opening ?_
    refine Params.HasParts.insert hlevel.slot key ?_
    rintro _ ⟨⟩
    exact hST.group _ h.body

theorem statement_shaped (h : r.Shaped S T) :
    Yields (Shaped S T) (fun _ => True) (r.statement d t) := by
  unfold statement
  split
  · exact h.addLeaf hST rfl rfl _
  · exact h.addLeaf hST rfl rfl _
  · exact yields_pure.2 ⟨h.body, h.levels, trivial⟩
  · exact close_shaped hST h

theorem commentLine_shaped (h : r.Shaped S T) (p : Position) (depth : Nat) (text : Text) :
    Yields (Shaped S T) (fun _ => True) (r.commentLine d p depth text t) := by
  have hcomment : (r.add (commentNode text p)).Shaped S T := h.addLeaf hST rfl rfl _
  unfold commentLine
  dsimp only
  split
  · exact close_shaped hST hcomment
  · exact close_shaped hST hcomment
  · exact close_shaped hST hcomment
  · exact ⟨h.body, h.levels, trivial⟩
  · exact ⟨h.body, h.levels, trivial⟩
  · exact ⟨h.body, h.levels, trivial⟩
  · exact ⟨h.body, h.levels, trivial⟩
  · split
    · exact ⟨h.body, h.levels, trivial⟩
    · next line rest _ =>
      have hboth : Shaped S T ((r.add (commentNode (text ++ line) p)).add
          (rawNode d ('\n' :: rest) (t.position.after line))) :=
        Shaped.addLeaf hST (h.addLeaf hST rfl rfl _) rfl rfl _
      exact ⟨hboth.body, hboth.levels, trivial⟩
  · exact ⟨h.body, h.levels, trivial⟩

theorem argument_shaped (h : r.Shaped S T) {o : Opening} (ho : o.HasParts T) :
    Yields (Shaped S T) (fun _ => True) (r.argument d o t) := by
  unfold argument
  split
  · split
    · exact ⟨h.body, h.levels, ho⟩
    · refine ⟨by simp, ?_, trivial⟩
      exact List.forall_mem_cons.2 ⟨⟨h.body, ho, trivial⟩, h.levels⟩
  · exact (Opening.node_yields hST ho).bind fun n hn => statement_shaped hST (h.add hn)

theorem keep_shaped (h : r.Shaped S T) (opened : Position) (text : Text) {as : Kept}
    (has : as.HasParts T) : (r.keep opened text as).Shaped S T := by
  cases as with
  | comment p => exact h.addLeaf hST rfl rfl _
  | source p => exact h.addLeaf hST rfl rfl _
  | argument o =>
    exact ⟨h.body, h.levels, Opening.HasParts.addArgument has (hST.expression _ _)⟩

/-- Whatever token is taken, what was read stays made of statements and parts. -/
theorem take_shaped (h : r.Shaped S T) : Yields (Shaped S T) (fun _ => True) (r.take d t) := by
  have h' : Shaped S T { r with last := t.position } := ⟨h.body, h.levels, h.mode⟩
  have goOn : ∀ mode : Mode, mode.HasParts T →
      Shaped S T { r with mode := mode, last := t.position } :=
    fun _ hm => ⟨h.body, h.levels, hm⟩
  have fresh : ∀ o : Opening, o.args = [] → o.params = none → o.HasParts T := by
    intro o ha hp
    exact ⟨by simp [ha], by simp [hp]⟩
  have hmode := h.mode
  cases hr : r.mode <;> simp only [take, hr] <;> rw [hr] at hmode
  case statements => exact statement_shaped hST (hr ▸ h')
  case name p =>
    split
    · split
      · exact goOn (.comment p) trivial
      · exact goOn (.source p) trivial
      · exact goOn (.named _) (fresh _ rfl rfl)
      · exact goOn (.named _) (fresh _ rfl rfl)
    · trivial
  case source p =>
    split
    · exact goOn (.kept _ 0 [] (.source p)) trivial
    · trivial
  case comment p =>
    split
    · exact goOn (.kept _ 0 [] (.comment p)) trivial
    · exact commentLine_shaped hST (hr ▸ h') p 0 []
  case line p depth text => exact commentLine_shaped hST (hr ▸ h') p depth text
  case kept opened depth text as =>
    split
    · exact keep_shaped hST (hr ▸ h') opened text hmode
    · exact goOn (.kept opened _ _ as) hmode
    · exact goOn (.kept opened _ _ as) hmode
    · exact goOn (.kept opened _ _ as) hmode
  case named o =>
    split
    · exact goOn (.key o _) ⟨hmode, Params.hasParts_nil _⟩
    · exact argument_shaped hST (hr ▸ h') hmode
  case arguments o => exact argument_shaped hST (hr ▸ h') hmode
  case key o params =>
    split
    · exact goOn (.arguments _) (hmode.1.withParams hmode.2)
    · exact goOn (.keyed o params _) hmode
    · trivial
  case keyed o params key =>
    split
    · refine yields_pure.2 ⟨by simp, ?_, trivial⟩
      exact List.forall_mem_cons.2 ⟨⟨h.body, hmode.1, hmode.2⟩, h.levels⟩
    · exact afterEntry_shaped (hr ▸ h') hmode.1 (hmode.2.insert key (by simp))

theorem foldlM_take_shaped (tokens : List Token) (h : r.Shaped S T) :
    Yields (Shaped S T) (fun _ => True) (tokens.foldlM (fun r t => r.take d t) r) :=
  .foldlM (fun _ _ => take_shaped hST) h tokens

omit hST in
theorem complete_shaped (h : r.Shaped S T) :
    Yields (fun program => ∀ n ∈ program, S n) (fun _ => True) r.complete := by
  unfold complete
  split
  · exact h.body
  · trivial
  · trivial

theorem finish_shaped (h : r.Shaped S T) :
    Yields (fun program => ∀ n ∈ program, S n) (fun _ => True) r.finish := by
  have hmode := h.mode
  have hnode : ∀ o : Opening, o.HasParts T →
      Yields (fun program => ∀ n ∈ program, S n) (fun _ => True)
        (do (r.add (← o.node)).complete) := fun o ho =>
    (Opening.node_yields hST ho).bind fun n hn => complete_shaped (h.add hn)
  unfold finish
  cases hr : r.mode <;> rw [hr] at hmode
  case statements => exact complete_shaped h
  case comment p => exact complete_shaped (h.addLeaf hST rfl rfl _)
  case line p depth text => exact complete_shaped (h.addLeaf hST rfl rfl _)
  case named o => exact hnode o hmode
  case arguments o => exact hnode o hmode
  all_goals trivial

end Steps

end Reading

/-- What the nodes that are read keep holds of the statements of a program. -/
theorem Shapes.parse (hST : Shapes S T) {d : Delimiters} {tokens : List Token}
    {program : List Node} (h : parse d tokens = .ok program) : ∀ n ∈ program, S n := by
  have hstart : Reading.initial.Shaped S T :=
    ⟨by simp [Reading.initial], by simp [Reading.initial], trivial⟩
  have hparse : Yields (fun program => ∀ n ∈ program, S n) (fun _ => True)
      (Stencil.parse d tokens) :=
    (Reading.foldlM_take_shaped hST tokens hstart).bind fun r hr => Reading.finish_shaped hST hr
  rwa [h] at hparse

theorem shapes_siftable (keep : Node → Bool) (hgroup : ∀ body l, keep (.mk (.group body) l) = true)
    (hexpression : ∀ source l, keep (.mk (.expression source) l) = true)
    (hcase : ∀ value body l, keep (.mk (.case value body) l) = true) :
    Shapes (Node.Everywhere (Node.Siftable keep))
      fun n => keep n = true ∧ n.Everywhere (Node.Siftable keep) where
  layer _ hparts _ := by
    refine Node.everywhere_iff.2 ⟨fun q hq hnot => ?_, fun q hq => (hparts q hq).2⟩
    rw [(hparts q hq).1] at hnot
    cases hnot
  group _ hbody :=
    ⟨hgroup _ _, Node.everywhere_iff.2 ⟨fun _ _ _ => ⟨_, rfl⟩, by simpa using hbody⟩⟩
  statements h n hn := h.2.part (by simpa using hn)
  expression source p := ⟨hexpression _ _, Node.everywhere_iff.2
    (by simp [Node.Siftable, Form.parts, Form.ownParts, Form.params?])⟩
  case h := ⟨hcase _ _ _, h⟩

/-- In a program that was read, imports are statements. -/
theorem parse_confines {d : Delimiters} {tokens : List Token} {program : List Node}
    (h : parse d tokens = .ok program) : ∀ n ∈ program, n.Everywhere Node.Confines := by
  have hshapes := shapes_siftable (!·.isUse) (fun _ _ => rfl) (fun _ _ => rfl) fun _ _ _ => rfl
  exact fun n hn => (hshapes.parse h n hn).imp fun m => Node.confines_iff.2

/-- No file is known of a node and of its parameter list. -/
def Node.KnowsNoFile (n : Node) : Prop :=
  n.location.file = none ∧ ∀ p ∈ n.form.params?, p.location.file = none

theorem shapes_knowsNoFile :
    Shapes (Node.Everywhere Node.KnowsNoFile) (Node.Everywhere Node.KnowsNoFile) where
  layer _ hparts hparams := Node.everywhere_iff.2 ⟨⟨rfl, hparams⟩, hparts⟩
  group _ hbody := Node.everywhere_iff.2 ⟨⟨rfl, by simp [Form.params?]⟩, by simpa using hbody⟩
  statements h n hn := h.part (by simpa using hn)
  expression source p := Node.everywhere_iff.2
    (by simp [Node.KnowsNoFile, Position.here, Node.location, Form.parts, Form.ownParts,
      Form.params?])
  case h := h

theorem parse_knowsNoFile {d : Delimiters} {tokens : List Token} {program : List Node}
    (h : parse d tokens = .ok program) : ∀ n ∈ program, n.Everywhere Node.KnowsNoFile :=
  shapes_knowsNoFile.parse h

end Stencil
