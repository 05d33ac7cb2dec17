import Stencil.Node.Parser
import Stencil.Proofs.Node

/-! What a command becomes when it is read to its end: a node whose parts are its arguments and the
values of its parameters, or a fault in its arguments or parameters. -/
namespace Stencil

/-- The result is as `P` says, or else a fault as `E` says. -/
def Yields {α : Type} (P : α → Prop) (E : Fault ParseCause → Prop) :
    Except (Fault ParseCause) α → Prop
  | .ok a => P a
  | .error fault => E fault

section Results

variable {α β : Type} {P Q : α → Prop} {E F : Fault ParseCause → Prop}
  {a : Except (Fault ParseCause) α} {l : List α}

@[simp] theorem yields_pure {x : α} : Yields P E (pure x) ↔ P x := Iff.rfl

theorem Yields.bind {R : β → Prop} {f : α → Except (Fault ParseCause) β} (h : Yields P E a)
    (hf : ∀ x, P x → Yields R E (f x)) : Yields R E (a >>= f) := by
  cases a with
  | error fault => exact h
  | ok x => exact hf x h

theorem Yields.imp (h : Yields P E a) (hP : ∀ x, P x → Q x) (hE : ∀ fault, E fault → F fault) :
    Yields Q F a := by
  cases a with
  | error fault => exact hE fault h
  | ok x => exact hP x h

theorem Yields.foldlM {f : β → α → Except (Fault ParseCause) β} {R : β → Prop}
    (hf : ∀ s x, R s → Yields R E (f s x)) {s : β} (hs : R s) (xs : List α) :
    Yields R E (xs.foldlM f s) := by
  induction xs generalizing s with
  | nil => exact hs
  | cons x xs ih =>
    rw [List.foldlM_cons]
    exact (hf s x hs).bind fun _ => ih

theorem Yields.mapM_filter {f : α → Except (Fault ParseCause) (List α)}
    (h : ∀ x ∈ l, Yields (fun xs => xs = [] ∨ xs = [x] ∧ P x) E (f x)) :
    Yields (fun kept => kept.flatten.Sublist l ∧ ∀ x ∈ kept.flatten, P x) E (l.mapM f) := by
  induction l with
  | nil => exact ⟨.slnil, nofun⟩
  | cons x l ih =>
    rw [List.mapM_cons]
    refine (h x List.mem_cons_self).bind fun xs hxs => ?_
    refine (ih fun y hy => h y (List.mem_cons_of_mem _ hy)).bind fun kept hkept => ?_
    obtain ⟨hsub, hall⟩ := hkept
    rw [yields_pure, List.flatten_cons]
    obtain rfl | ⟨rfl, hx⟩ := hxs
    · exact ⟨hsub.cons x, hall⟩
    · exact ⟨hsub.cons_cons x, List.forall_mem_cons.2 ⟨hx, hall⟩⟩

end Results

/-- Whether a layer holds text itself. -/
def Form.holdsText {ν : Type} : Form ν → Bool
  | .raw _ | .expression _ | .comment _ => true
  | _ => false

namespace Opening

/-- Whether a fault judges a command by its arguments and parameters alone. -/
def Judges (fault : Fault ParseCause) : Prop :=
  match fault.cause with
  | .argumentCount _ _ _ | .parameterCount _ _ | .invalidArm _ => True
  | _ => False

/-- Where a command is at fault for its arguments. -/
def BlamedAt (o : Opening) (p : Position) : Prop :=
  p = o.position ∨ ∃ arg ∈ o.args, p = arg.location.position ∨
    ∃ n ∈ arg.form.parts, p = n.location.position

/-- A fault that a command is refused for. -/
structure Refuses (o : Opening) (fault : Fault ParseCause) : Prop where
  judges : Judges fault
  place : o.BlamedAt fault.position

/-- What is made of a command: its parts are the arguments, or the cases of a match, and its
parameters are those read. -/
structure Makes (o : Opening) (form : Form Node) : Prop where
  parts : form.ownParts = o.args ∨ ∃ subject statements l cases, form.ownParts = subject :: cases ∧
    o.args = [subject, .mk (.group statements) l] ∧ cases.Sublist statements ∧
    ∀ n ∈ cases, ∃ value body l, n = .mk (.case value body) l
  params : ∀ p ∈ form.params?, p = .empty ∨ o.params = some p
  bare : form.holdsText = false

section Parts

variable {o : Opening} {form : Form Node}

theorem Makes.forall_mem_ownParts {P : Node → Prop} (h : o.Makes form) (hargs : ∀ q ∈ o.args, P q)
    (hcases : ∀ {statements l}, P (.mk (.group statements) l) →
      ∀ n ∈ statements, (∃ value body l, n = .mk (.case value body) l) → P n) :
    ∀ q ∈ form.ownParts, P q := by
  intro q hq
  obtain hown | ⟨subject, statements, l, cases, hown, ho, hsub, hcase⟩ := h.parts
  · exact hargs q (hown ▸ hq)
  · obtain rfl | hq := List.mem_cons.1 (hown ▸ hq)
    · exact hargs q (by simp [ho])
    · exact hcases (hargs (.mk (.group statements) l) (by simp [ho])) q (hsub.subset hq)
        (hcase q hq)

theorem Makes.forall_params {P : Params Node → Prop} (h : o.Makes form) (hempty : P .empty)
    (hparams : ∀ p ∈ o.params, P p) : ∀ p ∈ form.params?, P p := by
  intro p hp
  obtain rfl | hp := h.params p hp
  · exact hempty
  · exact hparams p hp

end Parts

section Commands

variable (o : Opening)

theorem noParams_yields : Yields (fun _ => True) o.Refuses o.noParams := by
  unfold noParams
  split
  · trivial
  · exact ⟨trivial, .inl rfl⟩

/-- The cases of a match are among the statements of its body. -/
theorem arms_yields {body : Node} (hbody : body ∈ o.args) :
    Yields (fun cases => ∃ statements l, body = .mk (.group statements) l ∧
      cases.Sublist statements ∧ ∀ n ∈ cases, ∃ value body l, n = .mk (.case value body) l)
      o.Refuses (o.arms body) := by
  unfold arms
  split
  · next statements l =>
    have blamed : ∀ {form location}, Node.mk form location ∈ statements →
        o.Refuses ⟨.invalidArm o.name, location.position⟩ := by
      intro form location hn
      refine ⟨trivial, .inr ⟨_, hbody, .inr ⟨.mk form location, ?_, rfl⟩⟩⟩
      rwa [Node.form, Form.parts_group]
    refine (Yields.mapM_filter fun n hn => ?_).bind fun kept hkept => ⟨statements, l, rfl, hkept⟩
    split
    · exact .inr ⟨rfl, _, _, _, rfl⟩
    · exact .inl rfl
    · split
      · split
        · exact .inl rfl
        · exact blamed hn
      · exact blamed hn
  · exact ⟨trivial, .inr ⟨_, hbody, .inl rfl⟩⟩

theorem form_makes (c : Construct) : Yields o.Makes o.Refuses (o.form c) := by
  unfold form
  split
  case h_1 name body ho =>
    refine ⟨.inl ho.symm, ?_, rfl⟩
    rintro _ ⟨⟩
    cases o.params <;> simp
  case h_8 target ho | h_9 target hash ho => exact ⟨.inl ho.symm, fun p hp => .inr hp, rfl⟩
  case h_10 subject body ho =>
    refine o.noParams_yields.bind fun _ _ => (o.arms_yields (by simp [ho])).bind fun cases h => ?_
    obtain ⟨statements, l, rfl, hcases⟩ := h
    exact ⟨.inr ⟨subject, statements, l, cases, rfl, ho, hcases⟩, nofun, rfl⟩
  case h_12 => exact ⟨trivial, .inl rfl⟩
  all_goals
    next ho => exact o.noParams_yields.bind fun _ _ => ⟨.inl ho.symm, nofun, rfl⟩

/-- A command that is read to its end is a node where it begins, or refused. -/
theorem node_makes :
    Yields (fun n => ∃ form, n = .mk form o.position.here ∧ o.Makes form) o.Refuses o.node := by
  unfold node
  split
  · exact ⟨_, rfl, .inl rfl, fun p hp => .inr hp, rfl⟩
  · exact (o.form_makes _).bind fun form hform => ⟨form, rfl, hform⟩

theorem node_judges : Yields (fun _ => True) Judges o.node :=
  o.node_makes.imp (fun _ _ => trivial) fun _ h => h.judges

end Commands

end Opening

end Stencil
