import Stencil.Proofs.Effects
import Stencil.Proofs.Path

/-! Where paths lead. Normalizing a path keeps the names that it ends in, but of the `..` in front
of them, which climb out of the directory that the path is seen from, every two are lost. -/
namespace Stencil.Path

/-- Where a step leads from a directory, given by its names from the root on. -/
def Component.lead (d : List Text) : Component → List Text
  | root => []
  | current => d
  | parent => d.dropLast
  | name n => d ++ [n]

/-- Where a path leads from a directory, one step after another. -/
def lead (d : List Text) (t : Text) : List Text := (components t).foldl Component.lead d

/-- How many `..` among steps have no name before them to take back. -/
def climb : Nat → List Component → Nat
  | _, [] => 0
  | 0, .parent :: cs => climb 0 cs + 1
  | depth + 1, .parent :: cs => climb depth cs
  | depth, .name _ :: cs => climb (depth + 1) cs
  | depth, _ :: cs => climb depth cs

theorem climb_le_count (depth : Nat) (cs : List Component) :
    climb depth cs ≤ cs.count .parent := by
  induction cs generalizing depth with
  | nil => exact Nat.zero_le _
  | cons c cs ih =>
    cases c with
    | parent =>
      rw [List.count_cons_self]
      cases depth with
      | zero => exact Nat.succ_le_succ (ih 0)
      | succ depth => exact Nat.le_succ_of_le (ih depth)
    | root => simpa [climb] using ih depth
    | current => simpa [climb] using ih depth
    | name n => simpa [climb] using ih (depth + 1)

section Folding

/-- The steps that are kept, last first, after `k` times a `..` with nothing to take back. -/
def kept (k : Nat) (names : List Text) : List Component :=
  (names.map Component.name).reverse ++ List.replicate (k % 2) .parent

variable (k : Nat) (names : List Text) (d : List Text)

theorem kept_snoc (n : Text) : kept k (names ++ [n]) = .name n :: kept k names := by
  simp [kept]

theorem follow_kept_nil : follow (kept k []) .parent = kept (k + 1) [] := by
  obtain h | h := Nat.mod_two_eq_zero_or_one k
  · have hsucc : (k + 1) % 2 = 1 := by omega
    simp [kept, h, hsucc, follow]
  · have hsucc : (k + 1) % 2 = 0 := by omega
    simp [kept, h, hsucc, follow]

theorem foldl_lead_names : (names.map Component.name).foldl Component.lead d = d ++ names := by
  induction names generalizing d with
  | nil => simp
  | cons n names ih => simp [ih, Component.lead]

theorem dropLast_take_sub : (d.take (d.length - k)).dropLast = d.take (d.length - (k + 1)) := by
  rw [List.dropLast_eq_take, List.take_take]
  congr 1
  simp
  omega

theorem foldl_lead_replicate :
    (List.replicate k Component.parent).foldl Component.lead d = d.take (d.length - k) := by
  induction k with
  | zero => simp
  | succ k ih =>
    rw [List.replicate_succ', List.foldl_append, ih]
    exact dropLast_take_sub k d

theorem foldl_follow_kept {cs : List Component} (hcs : ∀ c ∈ cs, c ≠ .root) :
    ∃ names', cs.foldl follow (kept k names) = kept (k + climb names.length cs) names' ∧
      ∀ d : List Text, k + climb names.length cs ≤ d.length →
        cs.foldl Component.lead (d.take (d.length - k) ++ names) =
          d.take (d.length - (k + climb names.length cs)) ++ names' := by
  induction cs generalizing k names with
  | nil => exact ⟨names, rfl, fun _ _ => rfl⟩
  | cons c cs ih =>
    obtain ⟨hc, hrest⟩ := List.forall_mem_cons.1 hcs
    simp only [List.foldl_cons]
    cases c with
    | root => exact absurd rfl hc
    | current => exact ih k names hrest
    | name n =>
      obtain ⟨names', hfollow, hlead⟩ := ih k (names ++ [n]) hrest
      rw [kept_snoc, List.length_append] at hfollow
      rw [List.length_append] at hlead
      refine ⟨names', hfollow, fun d hd => ?_⟩
      rw [Component.lead, List.append_assoc]
      exact hlead d hd
    | parent =>
      obtain rfl | ⟨init, n, rfl⟩ := List.eq_nil_or_concat' names
      · obtain ⟨names', hfollow, hlead⟩ := ih (k + 1) [] hrest
        have hclimb : k + climb 0 (.parent :: cs) = k + 1 + climb 0 cs := by
          rw [climb]
          omega
        rw [follow_kept_nil, List.length_nil, hclimb]
        refine ⟨names', hfollow, fun d hd => ?_⟩
        rw [List.append_nil, Component.lead, dropLast_take_sub]
        simpa using hlead d hd
      · obtain ⟨names', hfollow, hlead⟩ := ih k init hrest
        rw [kept_snoc, List.length_append]
        refine ⟨names', hfollow, fun d hd => ?_⟩
        rw [← List.append_assoc, Component.lead, List.dropLast_concat]
        exact hlead d hd

end Folding

section Joining

variable (d : List Text)

theorem splitOn_slash (base t : Text) :
    (base ++ '/' :: t).splitOn '/' = base.splitOn '/' ++ t.splitOn '/' := by
  simp only [splitOn_eq, List.splitOn_eq_splitOnP]
  exact List.splitOnP_append_cons base t (by simp)

/-- A path takes the steps that its parts stand for. -/
theorem lead_eq (t : Text) : lead d t = ((t.splitOn '/').filterMap Component.ofPart?).foldl
    Component.lead (if isAbsolute t then [] else d) := by
  cases hsplit : t.splitOn '/' with
  | nil => exact absurd (splitOn_eq '/' t ▸ hsplit) (List.splitOn_ne_nil '/' t)
  | cons first others =>
    simp only [lead, components, parts_of_splitOn hsplit, List.foldl_append, List.filterMap_cons]
    split
    · next habsolute =>
      obtain ⟨_, hrooted⟩ := splitOn_of_isAbsolute habsolute
      obtain rfl : first = [] := (List.cons.inj (hsplit.symm.trans hrooted)).1
      rfl
    · unfold Component.ofFirst?
      split
      · next hdot =>
        rw [hdot]
        rfl
      · cases Component.ofPart? first <;> rfl

theorem lead_slash {base : Text} (t : Text) (h : isAbsolute t = false) :
    lead d (base ++ '/' :: t) = lead (lead d (base ++ ['/'])) t := by
  have habsolute : isAbsolute (base ++ '/' :: t) = isAbsolute (base ++ ['/']) := by
    cases base <;> rfl
  have hidle : Text.splitOn '/' [] = [[]] := rfl
  rw [lead_eq d, lead_eq _ t, lead_eq d (base ++ ['/']), splitOn_slash, splitOn_slash, habsolute, h,
    hidle, List.filterMap_append, List.filterMap_append, List.foldl_append, List.foldl_append]
  rfl

theorem lead_join (base : Text) {t : Text} (h : isAbsolute t = false) :
    lead d (join base t) = lead (lead d base) t := by
  unfold join
  rw [if_neg (by simp [h])]
  split
  · next hbase =>
    obtain rfl | ⟨init, c, rfl⟩ := List.eq_nil_or_concat' base
    · rfl
    · obtain rfl : c = '/' := by simpa using hbase
      rw [List.append_assoc]
      exact lead_slash d t h
  · next hbase =>
    have hne : base ≠ [] := fun hnil => hbase (by simp [hnil])
    have hslash : lead d (base ++ ['/']) = lead d base := by
      have habsolute : isAbsolute (base ++ ['/']) = isAbsolute base := by
        cases base with
        | nil => exact absurd rfl hne
        | cons => rfl
      rw [lead_eq d, lead_eq d base, splitOn_slash, habsolute, List.filterMap_append,
        List.foldl_append]
      rfl
    rw [lead_slash d t h, hslash]

end Joining

section Results

variable {p : Text} {d : List Text}

/-- Normalizing a path that climbs out of its directory keeps the names, and of the `..` one if
their number is odd and else none; so that it leads where it did exactly if at most one climbs. -/
theorem lead_normalize (hp : isAbsolute p = false)
    (hd : (components p).count .parent ≤ d.length) :
    (∃ names, components (normalize p) =
        List.replicate (climb 0 (components p) % 2) .parent ++ names.map .name ∧
      lead d p = d.take (d.length - climb 0 (components p)) ++ names ∧
      lead d (normalize p) = d.take (d.length - climb 0 (components p) % 2) ++ names) ∧
    (lead d (normalize p) = lead d p ↔ climb 0 (components p) ≤ 1) ∧
    ∀ (host : Host) (c : Config) (u : Use) (chain : List Text) (a : Aim) (j : Journal)
      (past : List Call) (call : Call), Origin.ofTarget a.target = .files →
      p = join c.filePath a.target → (u.enter host c chain a).Asks j past call →
      (call = .read (normalize p) ∨ ∃ found, call = .probe (normalize p) found) ∧
        lead d p = lead (lead d c.filePath) a.target := by
  obtain ⟨cs, hcs, heq⟩ := components_eq p
  rw [if_neg (by simp [hp])] at heq
  have hroot : ∀ c ∈ components p, c ≠ .root := by
    intro c hc hroot
    obtain h | ⟨h, -⟩ := hcs c (heq ▸ hc)
    · rw [hroot] at h
      cases h
    · rw [hroot] at h
      cases h
  have hclimb := (climb_le_count 0 (components p)).trans hd
  obtain ⟨names, hfollow, hlead⟩ := foldl_follow_kept 0 [] hroot
  have hnormal : components (normalize p) =
      List.replicate (climb 0 (components p) % 2) .parent ++ names.map .name := by
    have hkept : (components p).foldl follow [] = kept (climb 0 (components p)) names := by
      simpa [kept] using hfollow
    rw [components_normalize, hkept, kept]
    simp
  have hleads : lead d p = d.take (d.length - climb 0 (components p)) ++ names := by
    simpa [lead] using hlead d (by simpa using hclimb)
  have hleads' : lead d (normalize p) =
      d.take (d.length - climb 0 (components p) % 2) ++ names := by
    rw [lead, hnormal, List.foldl_append, foldl_lead_replicate, foldl_lead_names]
  refine ⟨⟨names, hnormal, hleads, hleads'⟩, ?_, ?_⟩
  · rw [hleads, hleads']
    refine ⟨fun h => ?_, fun h => by rw [Nat.mod_eq_of_lt (Nat.lt_succ_of_le h)]⟩
    have hlength := congrArg List.length (List.append_cancel_right h)
    rw [List.length_take, List.length_take] at hlength
    omega
  · intro host c u chain a j past call horigin hpath hasks
    have htarget : isAbsolute a.target = false := by
      rw [Bool.eq_false_iff]
      intro habsolute
      rw [hpath, join, if_pos habsolute, habsolute] at hp
      cases hp
    have hkey : c.keyOf a.target = normalize p := by
      rw [Config.keyOf, if_neg (by simp [horigin]), importKey, hpath]
    refine ⟨?_, hpath ▸ lead_join d c.filePath htarget⟩
    cases (Use.obeys_enter chain a).of_asks hasks with
    | fetch hnet => simp [horigin] at hnet
    | probe found _ => exact .inr ⟨found, by rw [hkey]⟩
    | read _ => exact .inl (by rw [hkey])

/-- A target that climbs once is found where it leads. -/
theorem lead_normalize_once : ∃ (host : Host) (c : Config) (u : Use) (a : Aim) (p : Text)
    (d : List Text), isAbsolute p = false ∧ (components p).count .parent ≤ d.length ∧
    climb 0 (components p) = 1 ∧ normalize p = "../a".toList ∧
    Origin.ofTarget a.target = .files ∧ p = join c.filePath a.target ∧
    (u.enter host c [] a).Asks .empty [] (.probe (normalize p) false) ∧
    lead d (normalize p) = lead d p ∧ lead d p = lead (lead d c.filePath) a.target := by
  let host : Host := .offline fun _ => .error ""
  let a : Aim := ⟨"b/../../a".toList, [], []⟩
  let u : Use := ⟨.mk (.raw []) .start, none, none, .start⟩
  let p : Text := "./b/../../a".toList
  let d : List Text := [['x'], ['y']]
  have hp : isAbsolute p = false := by decide
  have hd : (components p).count .parent ≤ d.length := by decide
  have hclimb : climb 0 (components p) = 1 := by decide
  have hasks : (u.enter host .initial [] a).Asks .empty [] (.probe (normalize p) false) :=
    ⟨List.nil_prefix, by decide⟩
  obtain ⟨-, hsame, himport⟩ := lead_normalize hp hd
  have hsame' := hsame.2 (Nat.le_of_eq hclimb)
  obtain ⟨-, hseen⟩ := himport host .initial u [] a .empty [] _ (by decide) rfl hasks
  exact ⟨host, .initial, u, a, p, d, hp, hd, hclimb, by decide, by decide, rfl, hasks, hsame',
    hseen⟩

/-- Two `..` that climb are lost. -/
theorem lead_normalize_twice : ∃ (p : Text) (d : List Text), isAbsolute p = false ∧
    (components p).count .parent ≤ d.length ∧ normalize p = ['a'] ∧
    lead d p ≠ lead d (normalize p) :=
  ⟨"../../a".toList, [['x'], ['y']], by decide⟩

end Results

end Stencil.Path
