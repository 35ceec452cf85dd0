import Worksheet.Graph.Audit
import Worksheet.Proofs.Graph.Order

set_option autoImplicit false

/-!
# What the checks decide

In a graph without loops the checks accept exactly the orders and the loops. The counting of loops agrees
with the check of a loop.
-/
namespace Worksheet
open Relation

section acyclic

variable {κ : Type} {next : κ → List κ} (hacyclic : ∀ k, ¬TransGen (Follows next) k k)
include hacyclic

theorem nodup_of_chain {keys : List κ} (h : keys.IsChain (Follows next)) : keys.Nodup := by
  have hchain : keys.IsChain (TransGen (Follows next)) := h.imp fun _ _ => .single
  refine hchain.pairwise.imp fun hab => ?_
  rintro rfl
  exact hacyclic _ hab

theorem IsOrder.pairwise {start : κ} {order : List κ} (h : IsOrder next start order) :
    order.Pairwise fun u v => ¬Follows next v u := by
  have suffix (a b : List κ) (hab : order = a ++ b) : b.Pairwise fun u v => ¬Follows next v u := by
    induction b generalizing a with
    | nil => exact .nil
    | cons u b ih =>
      refine List.pairwise_cons.2 ⟨fun v hv hvu => ?_, ih (a ++ [u]) (by simpa using hab)⟩
      have hmem : v ∈ order := by simp [hab, hv]
      have ha := h.mem_before hacyclic hab hmem hvu
      have hnodup := h.nodup
      rw [hab, List.nodup_append] at hnodup
      exact hnodup.2.2 v ha v (List.mem_cons_of_mem u hv) rfl
  exact suffix [] order rfl

theorem IsOrder.of_pairwise {start : κ} {order : List κ} (hbegins : order.head? = some start)
    (hnodup : order.Nodup) (hmem : ∀ k, k ∈ order ↔ ReflTransGen (Follows next) start k)
    (h : order.Pairwise fun u v => ¬Follows next v u) : IsOrder next start order := by
  refine ⟨hbegins, hnodup, hmem, fun a u b hab v huv => .inl ?_⟩
  have hv : v ∈ order := (hmem v).2 (((hmem u).1 (by simp [hab])).tail huv)
  rw [hab, List.mem_append, List.mem_cons] at hv
  rw [hab, List.pairwise_append] at h
  rcases hv with ha | rfl | hb
  · exact absurd huv (h.2.2 v ha u List.mem_cons_self)
  · exact absurd (.single huv) (hacyclic v)
  · exact hb

end acyclic

namespace Graph

section checks

variable {κ : Type} [DecidableEq κ]

/-- From `k` over direct dependents to one of the `last` keys. -/
structure Trail (g : Graph κ) (last : List κ) (k : κ) (keys : List κ) : Prop where
  begins : keys.head? = some k
  chain : keys.IsChain (Follows g.dependentsOf)
  ends : ∃ l, keys.getLast? = some l ∧ l ∈ last

variable (g : Graph κ) {start : κ} {keys last path : List κ}

theorem contains_iff (s t : κ) : g.contains s t = true ↔ Follows g.dependentsOf s t :=
  decide_eq_true_iff

theorem isChain_iff : g.isChain keys = true ↔ keys.IsChain (Follows g.dependentsOf) := by
  induction keys with
  | nil => exact iff_of_true rfl .nil
  | cons s keys ih =>
    cases keys with
    | nil => exact iff_of_true rfl (.singleton s)
    | cons t keys =>
      rw [isChain, Bool.and_eq_true, contains_iff, ih, List.isChain_cons_cons]

theorem isSorted_iff :
    g.isSorted keys = true ↔ keys.Pairwise fun u v => ¬Follows g.dependentsOf v u := by
  induction keys with
  | nil => exact iff_of_true rfl .nil
  | cons key keys ih =>
    rw [isSorted, Bool.and_eq_true, ih, List.pairwise_cons, List.all_eq_true]
    refine and_congr_left fun _ => forall₂_congr fun later _ => ?_
    rw [Bool.not_eq_true', ← Bool.not_eq_true, contains_iff]

theorem isOrderFrom_iff (hacyclic : ∀ k, ¬TransGen (Follows g.dependentsOf) k k)
    (hmem : ∀ k, k ∈ keys ↔ ReflTransGen (Follows g.dependentsOf) start k) :
    g.isOrderFrom start keys = true ↔ IsOrder g.dependentsOf start keys := by
  rw [isOrderFrom, Bool.and_eq_true, Bool.and_eq_true, decide_eq_true_iff, decide_eq_true_iff,
    isSorted_iff]
  constructor
  · rintro ⟨⟨hbegins, hnodup⟩, hsorted⟩
    exact .of_pairwise hacyclic hbegins hnodup hmem hsorted
  · exact fun h => ⟨⟨h.begins, h.nodup⟩, h.pairwise hacyclic⟩

theorem isLoop_iff_trail : g.isLoop start last path = true ↔
    path.getLast? = some start ∧ path.dropLast.Nodup ∧ g.Trail last start path.dropLast := by
  simp only [isLoop, Bool.and_eq_true, decide_eq_true_iff, isChain_iff, Option.any_eq_true,
    List.contains_iff_mem]
  constructor
  · rintro ⟨⟨⟨⟨hclosed, hbegins⟩, hnodup⟩, hchain⟩, hends⟩
    exact ⟨hclosed, hnodup, hbegins, hchain, hends⟩
  · rintro ⟨hclosed, hnodup, hbegins, hchain, hends⟩
    exact ⟨⟨⟨⟨hclosed, hbegins⟩, hnodup⟩, hchain⟩, hends⟩

/-- The check of a loop is for edges that differ from those of the graph in what leads to `start`, which
are the `last` keys. -/
theorem isLoop_iff {next : κ → List κ} (hback : ∀ u, Follows next u start ↔ u ∈ last)
    (hother : ∀ u v, v ≠ start → (Follows next u v ↔ Follows g.dependentsOf u v)) :
    g.isLoop start last path = true ↔ IsLoop next start path := by
  have chain_iff (hbegins : path.dropLast.head? = some start) (hnodup : path.dropLast.Nodup) :
      path.dropLast.IsChain (Follows g.dependentsOf) ↔ path.dropLast.IsChain (Follows next) := by
    obtain ⟨keys, hkeys⟩ := List.head?_eq_some_iff.1 hbegins
    rw [hkeys] at hnodup ⊢
    refine List.IsChain.iff_of_mem_tail_imp fun u v _ hv => (hother u v ?_).symm
    rintro rfl
    exact (List.nodup_cons.1 hnodup).1 hv
  rw [isLoop_iff_trail]
  constructor
  · rintro ⟨hclosed, hnodup, hbegins, hchain, l, hl, hlast⟩
    exact ⟨hclosed, hbegins, hnodup, (chain_iff hbegins hnodup).1 hchain, l, hl, (hback l).2 hlast⟩
  · rintro ⟨hclosed, hbegins, hnodup, hchain, l, hl, hreturns⟩
    exact ⟨hclosed, hnodup, hbegins, (chain_iff hbegins hnodup).2 hchain, l, hl,
      (hback l).1 hreturns⟩

theorem Consistent.isLoop_iff (h : g.Consistent) :
    g.isLoop start (g.dependeesOf start) path = true ↔ IsLoop g.dependentsOf start path :=
  g.isLoop_iff (fun u => h u start) fun _ _ _ => .rfl

end checks

section walks

variable {κ : Type} [DecidableEq κ] {g : Graph κ} {start : κ}

theorem Consistent.loopThrough?_isSome_iff (h : g.Consistent) :
    (g.loopThrough? start).isSome ↔ TransGen (Follows g.dependentsOf) start start := by
  have answer := h.orderFrom_answers start
  unfold loopThrough?
  cases ho : g.orderFrom start with
  | ok order =>
    rw [ho] at answer
    exact iff_of_false nofun answer.1
  | error loop =>
    rw [ho] at answer
    exact iff_of_true rfl answer.transGen

theorem Consistent.isLoop_loopThrough? (h : g.Consistent) {loop : Loop κ}
    (hl : g.loopThrough? start = some loop) : IsLoop g.dependentsOf start loop.path := by
  have answer := h.orderFrom_answers start
  unfold loopThrough? at hl
  split at hl
  · cases hl
  · rename_i ho
    rw [ho] at answer
    obtain rfl := Option.some.inj hl
    exact answer

theorem follows_dependentsWith (g : Graph String) (extra : List (String × String)) (u v : String) :
    Follows (g.dependentsWith extra) u v ↔ Follows g.dependentsOf u v ∨ (u, v) ∈ extra := by
  unfold Follows dependentsWith
  rw [List.mem_eraseDups, List.mem_mergeSort, List.mem_append]
  simp

theorem Consistent.orderWith_answers {g : Graph String} (h : g.Consistent)
    (extra : List (String × String)) (start : String) :
    Answers (g.dependentsWith extra) start (g.orderWith extra start) := by
  refine recalculationOrder_answers _ _ start fun k hk => ?_
  rcases ReflTransGen.cases_tail hk with rfl | ⟨u, -, huk⟩
  · exact List.mem_cons_self
  · refine List.mem_cons_of_mem start (List.mem_append.2 ?_)
    rcases (g.follows_dependentsWith extra u k).1 huk with hg | hextra
    · exact .inl (h.mem_keys hg)
    · exact .inr (List.mem_map_of_mem hextra)

end walks

section counts

variable {κ : Type} [DecidableEq κ] {g : Graph κ} {last : List κ}

theorem trail_singleton_iff {u k : κ} : g.Trail last u [k] ↔ u = k ∧ k ∈ last := by
  constructor
  · rintro ⟨hbegins, -, l, hl, hlast⟩
    obtain rfl : k = u := Option.some.inj hbegins
    obtain rfl : k = l := Option.some.inj hl
    exact ⟨rfl, hlast⟩
  · rintro ⟨rfl, hlast⟩
    exact ⟨rfl, .singleton u, u, rfl, hlast⟩

theorem trail_cons_iff {u k v : κ} {keys : List κ} :
    g.Trail last u (k :: v :: keys) ↔
      u = k ∧ Follows g.dependentsOf u v ∧ g.Trail last v (v :: keys) := by
  constructor
  · rintro ⟨hbegins, hchain, hends⟩
    obtain rfl : k = u := Option.some.inj hbegins
    obtain ⟨hkv, hchain⟩ := List.isChain_cons_cons.1 hchain
    exact ⟨rfl, hkv, rfl, hchain, hends⟩
  · rintro ⟨rfl, huv, -, hchain, hends⟩
    exact ⟨rfl, List.isChain_cons_cons.2 ⟨huv, hchain⟩, hends⟩

def trailsFrom (g : Graph κ) (last : List κ) (onward : κ → List (List κ)) (u : κ) : List (List κ) :=
  (if u ∈ last then [[u]] else []) ++ (g.dependentsOf u).flatMap fun v => (onward v).map (u :: ·)

section step

variable {onward : κ → List (List κ)} {u : κ}
  (h : ∀ v, Follows g.dependentsOf u v → ∀ t, t ∈ onward v ↔ g.Trail last v t)
include h

theorem mem_trailsFrom (t : List κ) : t ∈ g.trailsFrom last onward u ↔ g.Trail last u t := by
  have hmem : t ∈ g.trailsFrom last onward u ↔ (u ∈ last ∧ t = [u]) ∨
      ∃ v, Follows g.dependentsOf u v ∧ ∃ t', g.Trail last v t' ∧ u :: t' = t := by
    unfold trailsFrom
    rw [List.mem_append, List.mem_flatMap]
    refine or_congr ?_ (exists_congr fun v => and_congr_right fun hv => ?_)
    · split
      · simp [*]
      · simp [*]
    · simp only [List.mem_map, h v hv]
  rw [hmem]
  constructor
  · rintro (⟨hlast, rfl⟩ | ⟨v, huv, t', ht', rfl⟩)
    · exact trail_singleton_iff.2 ⟨rfl, hlast⟩
    · obtain ⟨keys, rfl⟩ := List.head?_eq_some_iff.1 ht'.begins
      exact trail_cons_iff.2 ⟨rfl, huv, ht'⟩
  · intro ht
    match t, ht with
    | [], ht => cases ht.begins
    | [k], ht =>
      obtain ⟨rfl, hlast⟩ := trail_singleton_iff.1 ht
      exact .inl ⟨hlast, rfl⟩
    | k :: v :: keys, ht =>
      obtain ⟨rfl, huv, ht⟩ := trail_cons_iff.1 ht
      exact .inr ⟨v, huv, v :: keys, ht, rfl⟩

theorem nodup_trailsFrom (hnext : (g.dependentsOf u).Nodup)
    (honward : ∀ v, Follows g.dependentsOf u v → (onward v).Nodup) :
    (g.trailsFrom last onward u).Nodup := by
  unfold trailsFrom
  refine List.nodup_append.2 ⟨?_, List.nodup_flatMap.2 ⟨fun v hv => ?_, ?_⟩, ?_⟩
  · split
    · exact List.nodup_singleton _
    · exact .nil
  · exact (honward v hv).map fun a b hab => (List.cons.inj hab).2
  · refine hnext.imp_of_mem fun {v w} hv hw hne t htv htw => hne ?_
    obtain ⟨a, ha, rfl⟩ := List.mem_map.1 htv
    obtain ⟨b, hb, hab⟩ := List.mem_map.1 htw
    obtain rfl := (List.cons.inj hab).2
    exact Option.some.inj (((h v hv b).1 ha).begins.symm.trans ((h w hw b).1 hb).begins)
  · rintro a ha b hb rfl
    obtain ⟨v, hv, hb⟩ := List.mem_flatMap.1 hb
    obtain ⟨t, ht, rfl⟩ := List.mem_map.1 hb
    obtain ⟨keys, rfl⟩ := List.head?_eq_some_iff.1 ((h v hv t).1 ht).begins
    split at ha
    · cases List.mem_singleton.1 ha
    · cases ha

end step

theorem length_trailsFrom (onward : κ → List (List κ)) (u : κ) :
    (g.trailsFrom last onward u).length =
      (if u ∈ last then 1 else 0) + ((g.dependentsOf u).map fun v => (onward v).length).sum := by
  unfold trailsFrom
  rw [List.length_append, List.length_flatMap]
  congr 1
  · split <;> rfl
  · simp only [List.length_map]

theorem exists_trails (last : List κ) (hnodup : ∀ k, (g.dependentsOf k).Nodup) {keys : List κ}
    (hkeys : keys.Nodup)
    (hsorted : ∀ a u b, keys = a ++ u :: b → ∀ v, Follows g.dependentsOf u v → v ∈ b) :
    ∀ k ∈ keys, ∃ trails : List (List κ), trails.Nodup ∧
      (∀ t, t ∈ trails ↔ g.Trail last k t) ∧
      (g.pathCounts last keys).lookup k = some trails.length := by
  induction keys with
  | nil => exact fun _ hk => nomatch hk
  | cons u keys ih =>
    obtain ⟨hu, hkeys⟩ := List.nodup_cons.1 hkeys
    have ih := ih hkeys fun a v b hab => hsorted (u :: a) v b (by rw [hab]; rfl)
    choose! onward honward_nodup honward_mem honward_count using ih
    have next_mem (v : κ) (hv : Follows g.dependentsOf u v) : v ∈ keys := hsorted [] u keys rfl v hv
    intro k hk
    rcases List.mem_cons.1 hk with rfl | hk
    · refine ⟨g.trailsFrom last onward k, ?_, ?_, ?_⟩
      · exact nodup_trailsFrom (fun v hv => honward_mem v (next_mem v hv)) (hnodup k) fun v hv =>
          honward_nodup v (next_mem v hv)
      · exact mem_trailsFrom fun v hv => honward_mem v (next_mem v hv)
      · have counts : ((g.dependentsOf k).map fun v => ((g.pathCounts last keys).lookup v).getD 0) =
            (g.dependentsOf k).map fun v => (onward v).length :=
          List.map_congr_left fun v hv => by rw [honward_count v (next_mem v hv)]; rfl
        rw [pathCounts, List.lookup_cons_self, length_trailsFrom, counts, List.sum_eq_foldr]
    · refine ⟨onward k, honward_nodup k hk, honward_mem k hk, ?_⟩
      have hne : (k == u) = false := beq_false_of_ne fun h => hu (h ▸ hk)
      rw [pathCounts, List.lookup_cons, hne]
      exact honward_count k hk

/-- In a graph without loops the count is that of all the paths that pass the check of a loop. -/
theorem Consistent.loopCount_eq (h : g.Consistent)
    (hacyclic : ∀ k, ¬TransGen (Follows g.dependentsOf) k k)
    (hnodup : ∀ k, (g.dependentsOf k).Nodup) (start : κ) : ∃ loops : List (List κ), loops.Nodup ∧
      (∀ path, path ∈ loops ↔ g.isLoop start last path = true) ∧
      g.loopCount start last = loops.length := by
  have answer := h.orderFrom_answers start
  unfold loopCount
  cases ho : g.orderFrom start with
  | error loop =>
    rw [ho] at answer
    exact absurd answer.transGen (hacyclic start)
  | ok order =>
    rw [ho] at answer
    obtain ⟨-, horder⟩ := answer
    have hstart : start ∈ order := List.mem_of_head? horder.begins
    have hsorted (a : List κ) (u : κ) (b : List κ) (hab : order = a ++ u :: b) (v : κ)
        (huv : Follows g.dependentsOf u v) : v ∈ b := by
      rcases horder.sorted a u b hab v huv with hb | hback
      · exact hb
      · exact absurd (.head' huv hback) (hacyclic u)
    obtain ⟨trails, trails_nodup, hmem, hcount⟩ :=
      exists_trails last hnodup horder.nodup hsorted start hstart
    refine ⟨trails.map (· ++ [start]), ?_, fun path => ?_, ?_⟩
    · exact trails_nodup.map fun a b hab => List.append_cancel_right hab
    · rw [isLoop_iff_trail, List.mem_map]
      constructor
      · rintro ⟨t, ht, rfl⟩
        have trail := (hmem t).1 ht
        rw [List.dropLast_concat, List.getLast?_concat]
        exact ⟨rfl, nodup_of_chain hacyclic trail.chain, trail⟩
      · rintro ⟨hclosed, -, ht⟩
        exact ⟨path.dropLast, (hmem _).2 ht, List.dropLast_append_getLast? start hclosed⟩
    · dsimp only
      rw [hcount, List.length_map]
      rfl

end counts

end Graph
end Worksheet
