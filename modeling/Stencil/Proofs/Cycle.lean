import Mathlib.Data.Finset.Card
import Mathlib.Data.Finset.Dedup
import Stencil.Proofs.Failing
import Stencil.Proofs.Path

/-! Imports come to an end: no content is entered again on the way to an import, so that a host with
finitely many contents bounds how deep imports nest, and a cycle is reported where one closes. -/
namespace Stencil

open Stencil.Action

/-- The host reads only files at some normalized paths, and answers for some addresses only. -/
structure Host.Offers (host : Host) (paths urls : List Text) : Prop where
  files : ∀ past later path bytes, (host.answers past).isFile path = true →
    (host.answers later).read path = .ok bytes → Path.normalize path ∈ paths
  net : ∀ past url bytes, (host.answers past).fetch url = .ok bytes → url ∈ urls

/-- Files in memory and a table of addresses are such a host. -/
theorem Host.offers_of_files {host : Host} {f : Files} {urls : List Text}
    (hread : ∀ past path, (host.answers past).read path = f.read path)
    (hfetch : ∀ past url bytes, (host.answers past).fetch url = .ok bytes → url ∈ urls) :
    host.Offers f.entries.keys urls := by
  refine ⟨fun past later path bytes _ hbytes => ?_, hfetch⟩
  rw [hread, Files.read] at hbytes
  by_contra hnot
  rw [Entries.get?_eq_none_iff.2 hnot] at hbytes
  cases hbytes

variable {host : Host} {c : Config} {t t' : Task} {p : Passage} {u : Use} {j k : Journal}
  {paths urls : List Text}

theorem Use.runs_load (ho : host.Offers paths urls) {target : Text} {bytes : Bytes}
    (h : (u.load host c target).Runs j bytes k) :
    c.keyOf target ∈ paths ++ urls := by
  unfold load at h
  split at h
  · next horigin =>
    obtain ⟨now, i, hnow, h₁⟩ := runs_bind.1 h
    obtain ⟨rfl, rfl⟩ := runs_answers.1 hnow
    obtain ⟨_, i₁, -, h₂⟩ := runs_bind.1 h₁
    split at h₂
    · next hfetch =>
      rw [Config.keyOf, if_pos horigin]
      exact List.mem_append_right _ (ho.net _ _ _ hfetch)
    · exact absurd h₂ runs_fail
  · next horigin =>
    obtain ⟨now, i, hnow, h₁⟩ := runs_bind.1 h
    obtain ⟨rfl, rfl⟩ := runs_answers.1 hnow
    obtain ⟨_, i₁, -, h₂⟩ := runs_bind.1 h₁
    split at h₂
    · obtain ⟨_, i₂, hfail, -⟩ := runs_bind.1 h₂
      exact absurd hfail runs_fail
    · next hfile =>
      obtain ⟨later, i₂, hlater, h₃⟩ := runs_bind.1 h₂
      obtain ⟨rfl, rfl⟩ := runs_answers.1 hlater
      obtain ⟨_, i₃, -, h₄⟩ := runs_bind.1 h₃
      split at h₄
      · next hread =>
        have hkey : Path.normalize (c.keyOf target) = c.keyOf target := by
          rw [Config.keyOf, if_neg horigin, importKey, Path.normalize_normalize]
        have hpath := ho.files _ _ _ _ (by simpa using hfile) hread
        exact List.mem_append_left _ (hkey ▸ hpath)
      · exact absurd h₄ runs_fail

/-- The keys that a host offers and that are not being imported yet. -/
def unseen (all chain : List Text) : Nat := (all.toFinset \ chain.toFinset).card

theorem unseen_le (all chain : List Text) : unseen all chain ≤ all.length :=
  (Finset.card_le_card Finset.sdiff_subset).trans all.toFinset_card_le

theorem unseen_lt {all chain : List Text} {key : Text} (hkey : key ∈ all) (hnot : key ∉ chain) :
    unseen all (chain ++ [key]) < unseen all chain := by
  refine Finset.card_lt_card (Finset.ssubset_iff_of_subset ?_ |>.2 ⟨key, ?_, ?_⟩)
  · intro k
    simp only [Finset.mem_sdiff, List.mem_toFinset, List.mem_append]
    tauto
  · simp [hkey, hnot]
  · simp

theorem Enters.key_mem (ho : host.Offers paths urls) (h : Enters host t j p t' k) :
    p.key ∈ paths ++ urls := by
  obtain ⟨hcomes, haim, henter⟩ := h
  obtain ⟨-, ⟨bytes, i, hload⟩, -⟩ := Use.runs_enter henter
  exact Use.runs_load ho hload

theorem Enters.unseen_lt (ho : host.Offers paths urls) (h : Enters host t j p t' k) :
    unseen (paths ++ urls) t'.chain < unseen (paths ++ urls) t.chain := by
  obtain ⟨hnot, hchain⟩ := h.chain_eq
  rw [hchain]
  exact Stencil.unseen_lt (h.key_mem ho) hnot

/-- Where imports may nest deeper than there are keys left, the compilation of a task ends. -/
theorem Task.not_stops_exhausted (ho : host.Offers paths urls) {depth : Nat}
    (hdepth : unseen (paths ++ urls) t.chain < depth) :
    ¬ (t.compile host depth).Stops j .exhausted k := by
  induction depth generalizing t j k with
  | zero => exact absurd hdepth (Nat.not_lt_zero _)
  | succ depth ih =>
    intro h
    obtain ⟨⟨⟩, -⟩ | ⟨cause, l, ⟨⟩, -⟩ | ⟨u, c, i, hcomes, hfaults | ⟨a, -, -, ⟨⟩⟩ |
      ⟨p, t', i', d, henters, ⟨⟩, hnested⟩⟩ := stops_compile h
    · exact hfaults.ne_exhausted rfl
    · obtain ⟨f, ⟨⟩, -⟩ | ⟨-, hinner⟩ := stops_within.1 hnested
      refine ih ?_ hinner
      have := henters.unseen_lt ho
      omega

theorem Reaches.chain_eq {r : Task} {path : List Passage} (h : Reaches host r j path t k) :
    t.chain = r.chain ++ path.map Passage.key := by
  induction h with
  | here t j => simp
  | through first _ ih => simp [ih, first.chain_eq.2]

/-- What is being imported is never entered again. -/
theorem Reaches.nodup_chain {r : Task} {path : List Passage} (h : Reaches host r j path t k)
    (hr : r.chain.Nodup) : t.chain.Nodup := by
  induction h with
  | here t j => exact hr
  | through first _ ih =>
    obtain ⟨hnot, hchain⟩ := first.chain_eq
    refine ih (hchain ▸ List.nodup_append.2 ⟨hr, List.nodup_singleton _, ?_⟩)
    rintro key hkey _ hsame rfl
    exact hnot (List.mem_singleton.1 hsame ▸ hkey)

theorem Reaches.keys_subset (ho : host.Offers paths urls) {r : Task} {path : List Passage}
    (h : Reaches host r j path t k) : path.map Passage.key ⊆ paths ++ urls := by
  induction h with
  | here t j => simp
  | through first _ ih => exact List.cons_subset.2 ⟨first.key_mem ho, ih⟩

/-- The import `u` comes next at `k` and is bound for content that is being imported, under
`key`. -/
inductive Reenters (host : Host) (t : Task) (j : Journal) : Use → Text → Journal → Prop where
  | intro {u : Use} {c : Config} {a : Aim} {i k : Journal} (hcomes : Comes host t j u c i)
      (haim : (u.aim host c).Runs i (some a) k) (hmem : c.keyOf a.target ∈ t.chain) :
      Reenters host t j u (c.keyOf a.target) k

/-- The failure where a path of imports comes to an import that closes a cycle. -/
def Task.cycleFailure (t : Task) (path : List Passage) (u : Use) (key : Text) : Failure :=
  ⟨path.map Passage.asInclude, .importing (.cycle (t.chain ++ [key])), u.location⟩

theorem Reaches.stops_cycle (ho : host.Offers paths urls) {path : List Passage} {key : Text}
    {i : Journal} (h : Reaches host t j path t' i) (hre : Reenters host t' i u key k) {depth : Nat}
    (hdepth : unseen (paths ++ urls) t.chain < depth) :
    (t.compile host depth).Stops j (.failed (t'.cycleFailure path u key)) k := by
  obtain ⟨hcomes, haim, hmem⟩ := hre
  obtain ⟨least, hfile⟩ := hcomes.stops 0 fun _ _ =>
    Use.stops_resolve haim (Use.stops_enter_of_mem hmem) _
  obtain ⟨least, htemplate⟩ := h.stops least hfile
  obtain ⟨k', hexhausted⟩ | hstops := Task.stops_of_deep htemplate depth
  · exact absurd hexhausted (Task.not_stops_exhausted ho hdepth)
  · rwa [List.append_nil] at hstops

theorem Task.stops_cycle {depth : Nat} {f : Failure} {keys : List Text}
    (h : (t.compile host depth).Stops j (.failed f) k) (hf : f.cause = .importing (.cycle keys)) :
    ∃ path t' i u key, Reaches host t j path t' i ∧ Reenters host t' i u key k ∧
      f = t'.cycleFailure path u key := by
  induction depth generalizing t j f with
  | zero => cases (stops_throw.1 h).1
  | succ depth ih =>
    obtain ⟨-, ⟨⟩⟩ | ⟨cause, l, hs, hcause⟩ | ⟨u, c, i, hcomes, ⟨cause, hs, hcause⟩ |
      ⟨a, haim, hmem, hs⟩ | ⟨p, t', i', d, henters, hd, hnested⟩⟩ := stops_compile h
    · cases hs
      exact absurd hf (hcause _)
    · cases hs
      exact absurd (Cause.importing.inj hf) (hcause keys)
    · cases hs
      exact ⟨[], t, j, u, _, .here t j, .intro hcomes haim hmem, rfl⟩
    · obtain rfl := Nat.succ.inj hd
      obtain ⟨g, hs, hinner⟩ | ⟨⟨⟩, -⟩ := stops_within.1 hnested
      cases hs
      obtain ⟨path, t'', i'', u', key, hreaches, hre, rfl⟩ := ih hinner hf
      exact ⟨p :: path, t'', i'', u', key, .through henters hreaches, hre, rfl⟩

/-- The host, where imports may nest as deep as is said. -/
def Host.nestingTo (n : Nat) (host : Host) : Host := { host with nesting := n }

theorem compileImport_nestingTo (n depth : Nat) :
    compileImport (host.nestingTo n) depth = compileImport host depth := by
  induction depth with
  | zero => rfl
  | succ depth ih =>
    funext source c chain
    unfold compileImport
    rw [ih]
    rfl

theorem stops_compile_iff {source : Text} {n : Nat} {s : Stop} :
    (compile (host.nestingTo n) source c).Stops j s k ↔
      ((Task.root source c).compile host (n + 2)).Stops j s k := by
  rw [stops_root]
  simp only [Task.compile, compileImport_nestingTo]
  rfl

theorem compile_nestingTo_refines {source : Text} {m n : Nat} (hmn : m ≤ n) : Refines
    (compile (host.nestingTo m) source c) (compile (host.nestingTo n) source c) := by
  rw [compile_eq, compile_eq]
  refine .bind ?_ fun _ => .refl _
  simp only [Task.compile, compileImport_nestingTo]
  exact Task.compile_refines (t := Task.root source c) (Nat.add_le_add_right hmn 2)

/-- On a host of finitely many contents, every compilation ends, no key stands twice in a chain, and
a cycle is reported exactly where a key of the chain would be entered again. -/
theorem compile_of_offers (ho : host.Offers paths urls) (source : Text) :
    (∀ n, paths.length + urls.length ≤ n → ∀ j,
      (∀ k, ¬ (compile (host.nestingTo n) source c).Stops j .exhausted k) ∧
      (compile (host.nestingTo n) source c).outcome j =
        (compile (host.nestingTo (paths.length + urls.length)) source c).outcome j) ∧
    (∀ j path t k, Reaches host (.root source c) j path t k →
      t.chain = (Task.root source c).chain ++ path.map Passage.key ∧ t.chain.Nodup ∧
        t.chain.length ≤ paths.length + urls.length + 1) ∧
    ∀ n, paths.length + urls.length ≤ n → ∀ j f k,
      ((compile (host.nestingTo n) source c).Stops j (.failed f) k ∧
          ∃ keys, f.cause = .importing (.cycle keys)) ↔
        ∃ path t i u key, Reaches host (.root source c) j path t i ∧ Reenters host t i u key k ∧
          f = t.cycleFailure path u key := by
  have hdepth : ∀ {n}, paths.length + urls.length ≤ n →
      unseen (paths ++ urls) (Task.root source c).chain < n + 2 := by
    intro n hn
    have hle := unseen_le (paths ++ urls) (Task.root source c).chain
    rw [List.length_append] at hle
    omega
  have hends : ∀ {n}, paths.length + urls.length ≤ n → ∀ j k,
      ¬ (compile (host.nestingTo n) source c).Stops j .exhausted k := by
    intro n hn j k h
    exact Task.not_stops_exhausted ho (hdepth hn) (stops_compile_iff.1 h)
  refine ⟨fun n hn j => ⟨hends hn j, ?_⟩, fun j path t k h => ?_, fun n hn j f k => ⟨?_, ?_⟩⟩
  · obtain ⟨k, hk⟩ | heq := compile_nestingTo_refines hn j
    · exact absurd hk (hends le_rfl j k)
    · exact heq.symm
  · have hnodup := h.nodup_chain (List.nodup_singleton _)
    have hchain := h.chain_eq
    refine ⟨hchain, hnodup, ?_⟩
    rw [hchain] at hnodup ⊢
    have hle := (List.nodup_append.1 hnodup).2.1.length_le_of_subset (h.keys_subset ho)
    rw [List.length_append] at hle ⊢
    have hroot : (Task.root source c).chain.length = 1 := rfl
    omega
  · rintro ⟨hstops, keys, hcause⟩
    exact Task.stops_cycle (stops_compile_iff.1 hstops) hcause
  · rintro ⟨path, t, i, u, key, hreaches, hre, rfl⟩
    refine ⟨stops_compile_iff.2 (hreaches.stops_cycle ho hre (hdepth hn)), _, rfl⟩

theorem tokenize_selfImport : tokenize Config.initial.delimiters "\\use\x7bb\x7d".toList =
    .ok (Token.place .start [⟨.escape, ['\\']⟩, ⟨.commandName, "use".toList⟩, ⟨.argStart, ['{']⟩,
      ⟨.raw, ['b']⟩, ⟨.argEnd, ['}']⟩]) := by
  rw [Config.delimiters_initial]
  cbv

theorem Use.runs_load_offline {read : Text → Except String Bytes} {target : Text} {bytes : Bytes}
    (hfiles : Origin.ofTarget target ≠ .net) (h : read (c.keyOf target) = .ok bytes) :
    (u.load (.offline read) c target).Runs j bytes
      ((j.call (.probe (c.keyOf target) true)).call (.read (c.keyOf target))) := by
  unfold load
  rw [if_neg hfiles]
  simp [Runs, Host.offline, outcome_bind, h, Except.isOk, Except.toBool, -bind_pure_comp]

theorem runs_read_selfImport {c : Config}
    (hc : c.restoreForced.delimiters = Config.initial.delimiters) :
    (read "\\use\x7bb\x7d".toList c).Runs j
      ([.mk (.use (.mk (.group [.mk (.raw ['b']) ⟨⟨0, 5⟩, none⟩]) ⟨⟨0, 4⟩, none⟩) none none)
        ⟨⟨0, 0⟩, none⟩], c.restoreForced) j :=
  runs_read (by decide) (hc ▸ tokenize_selfImport) (by rw [hc]; rfl)

/-- It is refused at the second import of it. -/
theorem compile_of_offers_self : ∃ (host : Host) (c : Config) (k : Journal),
    host.Offers [['b']] [] ∧
      (compile (host.nestingTo 1) "\\use\x7bb\x7d".toList c).Stops .empty
        (.failed ⟨[⟨['b'], ⟨⟨0, 0⟩, some "stdin".toList⟩⟩],
          .importing (.cycle ["stdin".toList, ['b'], ['b']]), ⟨⟨0, 0⟩, some ['b']⟩⟩) k := by
  let source : Text := "\\use\x7bb\x7d".toList
  let f : Files := ⟨[(['b'], Encoding.octets source)]⟩
  let host : Host := .offline f.read
  have ho : host.Offers [['b']] [] :=
    Host.offers_of_files (f := f) (fun _ _ => rfl) fun _ _ _ => nofun
  let c : Config := Config.initial.force Setting.fileEncoding "latin1".toList
  let target : Node := .mk (.group [.mk (.raw ['b']) ⟨⟨0, 5⟩, none⟩]) ⟨⟨0, 4⟩, none⟩
  let name : Text := "stdin".toList
  have hroot : Task.root source c = ⟨source, c, [name]⟩ := Task.root_eq (by decide)
  let use (file : Text) : Use := ⟨target.stamp file, none, none, ⟨⟨0, 0⟩, some file⟩⟩
  let i : Journal := (Journal.empty.call (.probe ['b'] true)).call (.read ['b'])
  let j : Journal := i.note (.importing ['b'] false) (use name).location
  let a : Aim := ⟨['b'], [], []⟩
  let inner : Config := c.restoreForced.forImport ['b'] ['.'] []
  let t : Task := ⟨source, inner, [name, ['b']]⟩
  have hcomes : Comes host ⟨source, c, [name]⟩ .empty (use name) c.restoreForced .empty :=
    .first (runs_read_selfImport rfl) rfl
  have haim : ((use name).aim host c.restoreForced).Runs .empty (some a) .empty := rfl
  have hload : ((use name).load host c.restoreForced ['b']).Runs .empty
      (Encoding.octets source) i := Use.runs_load_offline (by decide) rfl
  have hdecode : ((use name).decodeContent ['b'] inner.encoding (Encoding.octets source)).Runs i
      source i := rfl
  have henter : ((use name).enter host c.restoreForced [name] a).Runs .empty t j :=
    runs_bind.2 ⟨_, _, rfl, runs_bind.2 ⟨_, _, hload, runs_bind.2 ⟨_, _, rfl,
      runs_bind.2 ⟨_, _, hdecode, rfl⟩⟩⟩⟩
  have hreaches : Reaches host (.root source c) .empty [⟨use name, ['b'], c.restoreForced⟩] t j :=
    hroot ▸ .through (.intro hcomes haim henter) (.here _ _)
  have hcomes' : Comes host t j (use ['b']) inner.restoreForced j :=
    .first (runs_read_selfImport rfl) rfl
  have haim' : ((use ['b']).aim host inner.restoreForced).Runs j (some a) j := rfl
  have hre : Reenters host t j (use ['b']) ['b'] j := .intro hcomes' haim' (by decide)
  have hstops := ((compile_of_offers ho source (c := c)).2.2 1 le_rfl .empty _ j).2
    ⟨_, _, _, _, _, hreaches, hre, rfl⟩
  exact ⟨host, c, j, ho, hstops.1⟩

end Stencil
