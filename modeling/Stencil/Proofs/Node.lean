import Stencil.Import

/-! Nodes at any depth of a program: what holds of all of them, how to prove it, and what the walks
over a program do to them. -/
namespace Stencil

variable {ν μ κ : Type}

namespace Params

@[simp] theorem values_map (f : ν → μ) (p : Params ν) : (p.map f).values = p.values.map f := by
  simp only [values, map, List.filterMap_map, List.map_filterMap]
  rfl

theorem map_map (f : ν → μ) (g : μ → κ) (p : Params ν) : (p.map f).map g = p.map (g ∘ f) := by
  simp [map, Function.comp_def]

@[simp] theorem map_id (p : Params ν) : p.map (fun v => v) = p := by
  simp [map]

theorem mem_values {p : Params ν} {v : ν} : v ∈ p.values ↔ ∃ key, (key, some v) ∈ p.entries := by
  simp [values]

theorem map_congr {f g : ν → μ} {p : Params ν} (h : ∀ v ∈ p.values, f v = g v) :
    p.map f = p.map g := by
  unfold map
  congr 1
  refine List.map_congr_left fun entry hentry => ?_
  obtain ⟨key, value⟩ := entry
  cases value with
  | none => rfl
  | some v => simp [h v (mem_values.2 ⟨key, hentry⟩)]

end Params

namespace Form

@[simp] theorem parts_map (f : ν → μ) (form : Form ν) : (form.map f).parts = form.parts.map f := by
  cases form with
  | call name params args => cases params <;> simp [map, parts, ownParts, params?]
  | branch condition yes no => cases no <;> simp [map, parts, ownParts, params?]
  | use target hash params => cases hash <;> cases params <;> simp [map, parts, ownParts, params?]
  | _ => simp [map, parts, ownParts, params?]

@[simp] theorem ownParts_map (f : ν → μ) (form : Form ν) :
    (form.map f).ownParts = form.ownParts.map f := by
  cases form with
  | branch condition yes no => cases no <;> rfl
  | use target hash params => cases hash <;> rfl
  | _ => rfl

@[simp] theorem ownParts_mapLocation (f : Location → Location) (form : Form ν) :
    (form.mapLocation f).ownParts = form.ownParts := by
  cases form <;> rfl

@[simp] theorem parts_group (body : List ν) : (group body).parts = body := by
  simp [parts, ownParts, params?]

theorem mem_parts {q : ν} {form : Form ν} :
    q ∈ form.parts ↔
      q ∈ form.ownParts ∨ ∃ params, form.params? = some params ∧ q ∈ params.values := by
  cases h : form.params? <;> simp [parts, h]

theorem forall_mem_parts {P : ν → Prop} {form : Form ν} :
    (∀ q ∈ form.parts, P q) ↔
      (∀ q ∈ form.ownParts, P q) ∧ ∀ p ∈ form.params?, ∀ v ∈ p.values, P v := by
  cases h : form.params? <;> simp [parts, h, or_imp, forall_and]

@[simp] theorem map_id (form : Form ν) : form.map (fun q => q) = form := by
  cases form <;> simp [map]

theorem map_map (f : ν → μ) (g : μ → κ) (form : Form ν) :
    (form.map f).map g = form.map (g ∘ f) := by
  cases form <;> simp [map, Params.map_map, Function.comp_def]

theorem map_params?_congr {f g : ν → μ} (params : Option (Params ν))
    (h : ∀ p, params = some p → ∀ v ∈ p.values, f v = g v) :
    params.map (·.map f) = params.map (·.map g) := by
  cases params with
  | none => rfl
  | some p => exact congrArg some (Params.map_congr (h p rfl))

/-- The parts are all of a layer that a map changes. -/
theorem map_congr {f g : ν → μ} {form : Form ν} (h : ∀ q ∈ form.parts, f q = g q) :
    form.map f = form.map g := by
  have own : ∀ q ∈ form.ownParts, f q = g q := fun q hq => h q (mem_parts.2 (.inl hq))
  have listed : ∀ p, form.params? = some p → ∀ v ∈ p.values, f v = g v :=
    fun p hp v hv => h v (mem_parts.2 (.inr ⟨p, hp, hv⟩))
  cases form with
  | group body => exact congrArg group (List.map_congr_left own)
  | call name params args =>
    have hargs : args.map f = args.map g := List.map_congr_left own
    simp only [map]
    rw [map_params?_congr params listed, hargs]
  | define name params body =>
    simp_all [map, ownParts, Params.map_congr (listed params rfl)]
  | branch condition yes no => cases no <;> simp_all [map, ownParts]
  | choice subject cases =>
    simp_all [map, ownParts]
  | use target hash params =>
    have hparams := map_params?_congr params listed
    cases hash <;> simp_all [map, ownParts]
  | _ => simp_all [map, ownParts]

@[simp] theorem parts_mapLocation (f : Location → Location) (form : Form ν) :
    (form.mapLocation f).parts = form.parts := by
  cases form with
  | call name params args => cases params <;> rfl
  | use target hash params => cases params <;> rfl
  | _ => rfl

theorem params?_mapLocation (f : Location → Location) (form : Form ν) :
    (form.mapLocation f).params? = form.params?.map fun p => ⟨p.entries, f p.location⟩ := by
  cases form <;> rfl

theorem params?_map (f : ν → μ) (form : Form ν) :
    (form.map f).params? = form.params?.map (·.map f) := by
  cases form <;> rfl

theorem params?_mapBody (f : List ν → List ν) (form : Form ν) :
    (form.mapBody f).params? = form.params? := by
  cases form <;> rfl

theorem mapBody_eq_self {f : List ν → List ν} {form : Form ν} (h : ∀ body, form ≠ .group body) :
    form.mapBody f = form := by
  cases form with
  | group body => exact absurd rfl (h body)
  | _ => rfl

theorem map_ne_group {f : ν → μ} {form : Form ν} (h : ∀ body, form ≠ .group body)
    (body : List μ) : form.map f ≠ .group body := by
  intro hbody
  cases form <;> simp [map] at hbody h

theorem mapLocation_eq_self {f : Location → Location} {form : Form ν}
    (h : ∀ p ∈ form.params?, f p.location = p.location) : form.mapLocation f = form := by
  cases form with
  | call name params args => cases params <;> simp_all [mapLocation, params?]
  | define name params body => simp_all [mapLocation, params?]
  | use target hash params => cases params <;> simp_all [mapLocation, params?]
  | _ => rfl

end Form

namespace Node

@[simp] theorem form_mk (form : Form Node) (l : Location) : (mk form l).form = form := rfl

theorem sizeOf_lt_of_mem_values {q : Node} {p : Params Node} (h : q ∈ p.values) :
    sizeOf q < sizeOf p := by
  obtain ⟨key, hentry⟩ := Params.mem_values.1 h
  have := List.sizeOf_lt_of_mem hentry
  obtain ⟨entries, l⟩ := p
  simp at this ⊢
  omega

theorem sizeOf_lt_of_mem_ownParts {q : Node} {form : Form Node} (h : q ∈ form.ownParts) :
    sizeOf q < sizeOf form := by
  cases form with
  | group body =>
    have hlt := List.sizeOf_lt_of_mem (show q ∈ body from h)
    simp
    omega
  | call name params args =>
    have hlt := List.sizeOf_lt_of_mem (show q ∈ args from h)
    simp
    omega
  | choice subject cases =>
    obtain rfl | h := List.mem_cons.1 h
    · simp
      omega
    · have hlt := List.sizeOf_lt_of_mem h
      simp
      omega
  | branch condition yes no => cases no <;> simp_all [Form.ownParts] <;> grind
  | use target hash params => cases hash <;> simp_all [Form.ownParts] <;> grind
  | _ => simp_all [Form.ownParts] <;> grind

theorem sizeOf_lt_of_mem_parts {q : Node} {form : Form Node} (h : q ∈ form.parts) :
    sizeOf q < sizeOf form := by
  obtain h | ⟨p, hp, h⟩ := Form.mem_parts.1 h
  · exact sizeOf_lt_of_mem_ownParts h
  · have hlt := sizeOf_lt_of_mem_values h
    cases form <;> simp_all [Form.params?] <;> omega

/-- What holds of a node whenever it holds of its parts holds of all nodes. -/
theorem induction {P : Node → Prop} (step : ∀ form l, (∀ q ∈ form.parts, P q) → P (mk form l))
    (n : Node) : P n := by
  match n with
  | mk form l => exact step form l fun q hq => induction step q
termination_by n
decreasing_by
  have := sizeOf_lt_of_mem_parts hq
  simp
  omega

/-- The node is the other one, or stands in it at some depth. -/
inductive Occurs : Node → Node → Prop where
  | here (n : Node) : Occurs n n
  | inside {m q n : Node} (hq : q ∈ n.form.parts) (h : Occurs m q) : Occurs m n

theorem Occurs.trans {m n k : Node} (inner : Occurs m n) (outer : Occurs n k) : Occurs m k := by
  induction outer with
  | here => exact inner
  | inside hq _ ih => exact .inside hq ih

theorem Occurs.part {n k q : Node} (h : Occurs n k) (hq : q ∈ n.form.parts) : Occurs q k :=
  .trans (.inside hq (.here q)) h

/-- What holds of a node and of all that stands in it. -/
def Everywhere (P : Node → Prop) (n : Node) : Prop := ∀ m, Occurs m n → P m

variable {P Q : Node → Prop} {n : Node}

theorem everywhere_iff : n.Everywhere P ↔ P n ∧ ∀ q ∈ n.form.parts, q.Everywhere P := by
  constructor
  · exact fun h => ⟨h n (.here n), fun q hq m hm => h m (.inside hq hm)⟩
  · rintro ⟨h, hparts⟩ m (_ | ⟨hq, hm⟩)
    · exact h
    · exact hparts _ hq m hm

theorem Everywhere.self (h : n.Everywhere P) : P n := h n (.here n)

theorem Everywhere.part (h : n.Everywhere P) {q : Node} (hq : q ∈ n.form.parts) :
    q.Everywhere P := (everywhere_iff.1 h).2 q hq

theorem Everywhere.imp (h : n.Everywhere P) (hPQ : ∀ m, P m → Q m) : n.Everywhere Q :=
  fun m hm => hPQ m (h m hm)

section Walks

variable {β : Type} (f : Form (Node × β) → Location → β)

theorem foldWith_eq (n : Node) :
    fold (fun form l => (mk (form.map Prod.fst) l, f form l)) n = (n, foldWith f n) := by
  induction n using induction with
  | step form l ih =>
    refine Prod.ext ?_ rfl
    have hform : form.map (Prod.fst ∘ fold fun form l => (mk (form.map Prod.fst) l, f form l)) =
        form.map fun q => q := Form.map_congr fun q hq => congrArg Prod.fst (ih q hq)
    simp only [fold_mk, Form.map_map, hform, Form.map_id]

theorem foldWith_mk (form : Form Node) (l : Location) :
    foldWith f (mk form l) = f (form.map fun q => (q, foldWith f q)) l := by
  rw [← funext (foldWith_eq f), foldWith, fold_mk]

variable (file : Text) (form : Form Node) (l : Location)

@[simp] theorem stamp_mk : stamp file (mk form l) =
    mk ((form.map (stamp file)).mapLocation (·.stamp file)) (l.stamp file) :=
  fold_mk _ form l

@[simp] theorem withoutUses_mk :
    (mk form l).withoutUses = mk ((form.map withoutUses).mapBody (·.filter (!·.isUse))) l :=
  fold_mk _ form l

theorem uses_use (target : Node) (hash : Option Node) (params : Option (Params Node)) :
    (mk (.use target hash params) l).uses = [⟨target, hash, params, l⟩] := by
  rw [uses, foldWith_mk]
  simp [Form.map, Option.map_map, Function.comp_def, Params.map_map]

theorem uses_mk (h : (mk form l).isUse = false) : (mk form l).uses = form.parts.flatMap uses := by
  rw [uses, foldWith_mk]
  split
  · next hform => cases form <;> simp [Form.map, isUse] at hform h
  · rw [Form.parts_map, List.flatMap_map]

end Walks

section Sifting

variable {keep : Node → Bool} {n : Node} {file : Text}

/-- The node without the statements, at every depth, that `keep` does not hold of. -/
def sift (keep : Node → Bool) : Node → Node :=
  fold fun form l => mk (form.mapBody (·.filter keep)) l

/-- What `keep` does not hold of is among the statements of a group. -/
def Siftable (keep : Node → Bool) (n : Node) : Prop :=
  ∀ q ∈ n.form.parts, keep q = false → ∃ body, n.form = .group body

@[simp] theorem sift_mk (keep : Node → Bool) (form : Form Node) (l : Location) :
    (mk form l).sift keep = mk ((form.map (sift keep)).mapBody (·.filter keep)) l :=
  fold_mk _ form l

@[simp] theorem location_sift (keep : Node → Bool) (n : Node) :
    (n.sift keep).location = n.location := by
  obtain ⟨form, l⟩ := n
  rw [sift_mk]
  rfl

theorem of_mem_parts_sift {q' : Node} (h : q' ∈ (n.sift keep).form.parts) :
    ∃ q ∈ n.form.parts, q' = q.sift keep ∧ (keep q' = false → ∀ body, n.form ≠ .group body) := by
  obtain ⟨form, l⟩ := n
  rw [sift_mk, form_mk] at h
  by_cases hg : ∃ body, form = .group body
  · obtain ⟨body, rfl⟩ := hg
    simp only [Form.map, Form.mapBody, Form.parts_group, List.mem_filter, List.mem_map] at h
    obtain ⟨⟨q, hq, rfl⟩, hkept⟩ := h
    exact ⟨q, by simpa using hq, rfl, fun hnot => by simp [hnot] at hkept⟩
  · rw [Form.mapBody_eq_self (Form.map_ne_group fun body hbody => hg ⟨body, hbody⟩),
      Form.parts_map, List.mem_map] at h
    obtain ⟨q, hq, rfl⟩ := h
    exact ⟨q, hq, rfl, fun _ body hbody => hg ⟨body, hbody⟩⟩

/-- Where all that is not kept can be left out, sifting leaves what is kept. -/
theorem everywhere_sift (hkeep : ∀ m, keep (m.sift keep) = keep m)
    (h : n.Everywhere (Siftable keep)) (hn : keep n = true) :
    (n.sift keep).Everywhere fun m => keep m = true := by
  induction n using induction with
  | step form l ih =>
    refine everywhere_iff.2 ⟨by rwa [hkeep], fun q' hq' => ?_⟩
    obtain ⟨q, hq, rfl, hgroup⟩ := of_mem_parts_sift hq'
    refine ih q hq (h.part hq) (Bool.not_eq_false _ ▸ fun hnot => ?_)
    obtain ⟨body, hbody⟩ := h.self q hq hnot
    exact hgroup (by rwa [hkeep]) body hbody

theorem everywhere_siftable_stamp (hstamp : ∀ m, keep (m.stamp file) = keep m)
    (h : n.Everywhere (Siftable keep)) : (n.stamp file).Everywhere (Siftable keep) := by
  induction n using induction with
  | step form l ih =>
    rw [stamp_mk, everywhere_iff]
    refine ⟨fun q' hq hnot => ?_, fun q' hq => ?_⟩
    · simp only [form_mk, Form.parts_mapLocation, Form.parts_map, List.mem_map] at hq
      obtain ⟨q, hq, rfl⟩ := hq
      obtain ⟨body, hbody⟩ := h.self q hq (by rwa [hstamp] at hnot)
      obtain rfl : form = .group body := hbody
      exact ⟨body.map (stamp file), rfl⟩
    · simp only [form_mk, Form.parts_mapLocation, Form.parts_map, List.mem_map] at hq
      obtain ⟨q, hq, rfl⟩ := hq
      exact ih q hq (h.part hq)

theorem everywhere_siftable_sift {other : Node → Bool} (hsift : ∀ m, keep (m.sift other) = keep m)
    (h : n.Everywhere (Siftable keep)) : (n.sift other).Everywhere (Siftable keep) := by
  induction n using induction with
  | step form l ih =>
    refine everywhere_iff.2 ⟨fun q' hq' hnot => ?_, fun q' hq' => ?_⟩
    · obtain ⟨q, hq, rfl, -⟩ := of_mem_parts_sift hq'
      obtain ⟨body, hbody⟩ := h.self q hq (by rwa [hsift] at hnot)
      obtain rfl : form = .group body := hbody
      exact ⟨(body.map (sift other)).filter other, by rw [sift_mk]; rfl⟩
    · obtain ⟨q, hq, rfl, -⟩ := of_mem_parts_sift hq'
      exact ih q hq (h.part hq)

end Sifting

section Imports

variable {n : Node} {file : Text}

/-- The file is known of a node and of its parameter list. -/
def KnowsFile (n : Node) : Prop :=
  n.location.file.isSome ∧ ∀ p ∈ n.form.params?, p.location.file.isSome

/-- Imports among the parts of a node are statements of a group. -/
def Confines (n : Node) : Prop :=
  ∀ q ∈ n.form.parts, q.isUse → ∃ body, n.form = .group body

@[simp] theorem isUse_stamp (n : Node) : (n.stamp file).isUse = n.isUse := by
  obtain ⟨form, l⟩ := n
  cases form <;> simp [Form.map, Form.mapLocation, isUse]

@[simp] theorem isUse_withoutUses (n : Node) : n.withoutUses.isUse = n.isUse := by
  obtain ⟨form, l⟩ := n
  cases form <;> simp [Form.map, Form.mapBody, isUse]

theorem everywhere_knowsFile_stamp (file : Text) (n : Node) :
    (n.stamp file).Everywhere KnowsFile := by
  induction n using induction with
  | step form l ih =>
    rw [stamp_mk, everywhere_iff]
    refine ⟨⟨rfl, fun p hp => ?_⟩, ?_⟩
    · rw [form_mk, Form.params?_mapLocation, Option.mem_def, Option.map_eq_some_iff] at hp
      obtain ⟨p, -, rfl⟩ := hp
      rfl
    · simpa using ih

theorem stamp_eq_self (h : n.Everywhere KnowsFile) : n.stamp file = n := by
  induction n using induction with
  | step form l ih =>
    have known : ∀ l : Location, l.file.isSome → l.stamp file = l := by
      rintro ⟨p, _ | f⟩ hl
      · cases hl
      · rfl
    have hform : form.map (stamp file) = form.map fun q => q :=
      Form.map_congr fun q hq => ih q hq (h.part hq)
    have hparams : form.mapLocation (·.stamp file) = form :=
      Form.mapLocation_eq_self fun p hp => known _ (h.self.2 p hp)
    rw [stamp_mk, hform, Form.map_id, hparams, known l h.self.1]

theorem confines_iff : n.Confines ↔ n.Siftable (!·.isUse) := by
  simp [Confines, Siftable]

theorem everywhere_confines_stamp (file : Text) (h : n.Everywhere Confines) :
    (n.stamp file).Everywhere Confines := by
  have hsiftable : n.Everywhere (Siftable (!·.isUse)) := h.imp fun m => confines_iff.1
  have hstamp : ∀ m : Node, (!(m.stamp file).isUse) = !m.isUse := by simp
  exact (everywhere_siftable_stamp hstamp hsiftable).imp fun m => confines_iff.2

theorem everywhere_not_isUse_withoutUses (h : n.Everywhere Confines) (hn : n.isUse = false) :
    n.withoutUses.Everywhere fun m => m.isUse = false := by
  have hsiftable : n.Everywhere (Siftable (!·.isUse)) := h.imp fun m => confines_iff.1
  have hkept := everywhere_sift (fun m => congrArg (! ·) m.isUse_withoutUses) hsiftable (by simpa)
  exact hkept.imp fun m hm => by simpa using hm

theorem everywhere_knowsFile_withoutUses (h : n.Everywhere KnowsFile) :
    n.withoutUses.Everywhere KnowsFile := by
  induction n using induction with
  | step form l ih =>
    refine everywhere_iff.2 ⟨⟨?_, fun p hp => ?_⟩, fun q' hq' => ?_⟩
    · rw [withoutUses_mk]
      exact h.self.1
    · rw [withoutUses_mk, form_mk, Form.params?_mapBody, Form.params?_map, Option.mem_def,
        Option.map_eq_some_iff] at hp
      obtain ⟨p, hp, rfl⟩ := hp
      exact h.self.2 p hp
    · obtain ⟨q, hq, rfl, -⟩ := of_mem_parts_sift hq'
      exact ih q hq (h.part hq)

theorem uses_eq_nil (h : n.Everywhere fun m => m.isUse = false) : n.uses = [] := by
  induction n using induction with
  | step form l ih =>
    rw [uses_mk form l h.self, List.flatMap_eq_nil_iff]
    exact fun q hq => ih q hq (h.part hq)

theorem withoutUses_eq_self (h : n.Everywhere fun m => m.isUse = false) : n.withoutUses = n := by
  induction n using induction with
  | step form l ih =>
    have hform : form.map withoutUses = form.map fun q => q :=
      Form.map_congr fun q hq => ih q hq (h.part hq)
    rw [withoutUses_mk, hform, Form.map_id]
    by_cases hg : ∃ body, form = .group body
    · obtain ⟨body, rfl⟩ := hg
      have hbody : body.filter (!·.isUse) = body :=
        List.filter_eq_self.2 fun q hq => by simp [(h.part (by simpa using hq)).self]
      rw [Form.mapBody, hbody]
    · rw [Form.mapBody_eq_self fun body hbody => hg ⟨body, hbody⟩]

end Imports

end Node

end Stencil
