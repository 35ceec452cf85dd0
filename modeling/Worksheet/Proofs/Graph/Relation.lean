import Mathlib.Data.Finset.Card
import Mathlib.Data.Finset.Image
import Worksheet.Proofs.Graph.Pairs

set_option autoImplicit false

/-!
# The graph as a set of pairs

After any changes a graph shows one set of pairs, the one that the same changes make of the empty set.
Both directions list these pairs, the size counts them, and a key that has lost its last neighbour is
not kept.
-/
namespace Worksheet

namespace Adjacency

variable {κ : Type} [DecidableEq κ] {m : Adjacency κ}

/-- Each key stands once, with at least one neighbour and with none of them twice. -/
structure Pruned (m : Adjacency κ) : Prop where
  keys : m.keys.Nodup
  nodup : ∀ e ∈ m, e.2.Nodup
  nonempty : ∀ e ∈ m, e.2 ≠ []

theorem empty_pruned {α : Type} : Pruned ([] : Adjacency α) := ⟨List.nodup_nil, by simp, by simp⟩

theorem Pruned.erase (h : m.Pruned) (k : κ) : Pruned (Table.erase m k) :=
  ⟨Table.nodup_keys_erase h.keys k, fun e he => h.nodup e (List.mem_of_mem_filter he),
    fun e he => h.nonempty e (List.mem_of_mem_filter he)⟩

theorem Pruned.assign (h : m.Pruned) (k : κ) {ns : List κ} (hns : ns.Nodup) :
    (m.assign k ns).Pruned := by
  have erased := h.erase k
  unfold Adjacency.assign
  split
  · exact erased
  · rename_i hne
    refine ⟨Table.nodup_keys_insert h.keys k ns, fun e he => ?_, fun e he => ?_⟩
    · rcases List.mem_cons.1 he with rfl | he
      · exact hns
      · exact erased.nodup e he
    · rcases List.mem_cons.1 he with rfl | he
      · exact hne
      · exact erased.nonempty e he

theorem Pruned.nodup_neighbours (h : m.Pruned) (k : κ) : (m.neighbours k).Nodup := by
  unfold neighbours
  cases hk : Table.get? m k with
  | none => exact List.nodup_nil
  | some ns =>
    obtain ⟨before, after, hm, -⟩ := List.lookup_eq_some_iff.1 hk
    exact h.nodup (k, ns) (by simp [hm])

theorem Pruned.link (h : m.Pruned) {k n : κ} (hn : n ∉ m.neighbours k) : (m.link k n).Pruned :=
  h.assign k (List.nodup_cons.2 ⟨hn, h.nodup_neighbours k⟩)

theorem Pruned.unlink (h : m.Pruned) (k n : κ) : (m.unlink k n).Pruned :=
  h.assign k ((h.nodup_neighbours k).filter _)

end Adjacency

/-- A change of a graph: a pair more or less, or other dependents or dependees for one key. -/
inductive Change (κ : Type) where
  | add (s t : κ)
  | remove (s t : κ)
  | replaceDependents (s : κ) (ts : List κ)
  | replaceDependees (t : κ) (ss : List κ)

namespace Graph

variable {κ : Type} [DecidableEq κ]

def change (g : Graph κ) : Change κ → Graph κ
  | .add s t => g.add s t
  | .remove s t => g.remove s t
  | .replaceDependents s ts => g.replaceDependents s ts
  | .replaceDependees t ss => g.replaceDependees t ss

def afterChanges (cs : List (Change κ)) : Graph κ := cs.foldl change empty

/-- What a change does to a set of pairs. -/
def changePairs (r : Finset (κ × κ)) : Change κ → Finset (κ × κ)
  | .add s t => insert (s, t) r
  | .remove s t => r.erase (s, t)
  | .replaceDependents s ts => r.filter (fun p => p.1 ≠ s) ∪ ts.toFinset.image fun t => (s, t)
  | .replaceDependees t ss => r.filter (fun p => p.2 ≠ t) ∪ ss.toFinset.image fun s => (s, t)

def pairsAfter (cs : List (Change κ)) : Finset (κ × κ) := cs.foldl changePairs ∅

/-! The changes with a size that is counted down only while there is something to count. -/

def remove? (g : Graph κ) (s t : κ) : Option (Graph κ) :=
  if g.contains s t = true ∧ g.size = 0 then none else some (g.remove s t)

def replaceDependents? (g : Graph κ) (s : κ) (ts : List κ) : Option (Graph κ) := do
  let cleared ← (g.dependentsOf s).foldlM (fun g t => g.remove? s t) g
  return ts.foldl (fun g t => g.add s t) cleared

def replaceDependees? (g : Graph κ) (t : κ) (ss : List κ) : Option (Graph κ) := do
  let cleared ← (g.dependeesOf t).foldlM (fun g s => g.remove? s t) g
  return ss.foldl (fun g s => g.add s t) cleared

def change? (g : Graph κ) : Change κ → Option (Graph κ)
  | .add s t => some (g.add s t)
  | .remove s t => g.remove? s t
  | .replaceDependents s ts => g.replaceDependents? s ts
  | .replaceDependees t ss => g.replaceDependees? t ss

/-- The graph has the given pairs and is laid out as its changes leave it. -/
structure Represents (g : Graph κ) (r : Finset (κ × κ)) : Prop where
  mem_iff : ∀ s t, t ∈ g.dependentsOf s ↔ (s, t) ∈ r
  consistent : g.Consistent
  size : g.size = r.card
  dependents : g.dependents.Pruned
  dependees : g.dependees.Pruned

theorem empty_represents : (empty : Graph κ).Represents ∅ where
  mem_iff s t := by
    change t ∈ ([] : List κ) ↔ _
    simp
  consistent := empty_consistent
  size := rfl
  dependents := Adjacency.empty_pruned
  dependees := Adjacency.empty_pruned

namespace Represents

variable {g : Graph κ} {r : Finset (κ × κ)} (h : g.Represents r)

include h

theorem contains_iff (s t : κ) : g.contains s t = true ↔ (s, t) ∈ r :=
  decide_eq_true_iff.trans (h.mem_iff s t)

theorem mem_dependeesOf_iff (s t : κ) : s ∈ g.dependeesOf t ↔ (s, t) ∈ r :=
  (h.consistent s t).symm.trans (h.mem_iff s t)

theorem add (s t : κ) : (g.add s t).Represents (insert (s, t) r) := by
  by_cases hst : g.contains s t = true
  · have same : g.add s t = g := if_pos hst
    rw [same, Finset.insert_eq_of_mem ((h.contains_iff s t).1 hst)]
    exact h
  · have added : g.add s t = ⟨g.dependents.link s t, g.dependees.link t s, g.size + 1⟩ := if_neg hst
    have absent : (s, t) ∉ r := fun hr => hst ((h.contains_iff s t).2 hr)
    refine ⟨fun a b => ?_, h.consistent.add s t, ?_, ?_, ?_⟩
    · rw [mem_dependentsOf_add, h.mem_iff, Finset.mem_insert, Prod.mk.injEq]
    · rw [added, Finset.card_insert_of_notMem absent, h.size]
    · rw [added]
      exact h.dependents.link fun ht => absent ((h.mem_iff s t).1 ht)
    · rw [added]
      exact h.dependees.link fun hs => absent ((h.mem_dependeesOf_iff s t).1 hs)

theorem remove (s t : κ) : (g.remove s t).Represents (r.erase (s, t)) := by
  by_cases hst : g.contains s t = true
  · have removed : g.remove s t =
        ⟨g.dependents.unlink s t, g.dependees.unlink t s, g.size - 1⟩ := if_pos hst
    refine ⟨fun a b => ?_, h.consistent.remove s t, ?_, ?_, ?_⟩
    · rw [mem_dependentsOf_remove, h.mem_iff, Finset.mem_erase, Ne, Prod.mk.injEq]
    · rw [removed, Finset.card_erase_of_mem ((h.contains_iff s t).1 hst), h.size]
    · rw [removed]
      exact h.dependents.unlink s t
    · rw [removed]
      exact h.dependees.unlink t s
  · have same : g.remove s t = g := if_neg hst
    have absent : (s, t) ∉ r := fun hr => hst ((h.contains_iff s t).2 hr)
    rw [same, Finset.erase_eq_of_notMem absent]
    exact h

theorem remove?_eq (s t : κ) : g.remove? s t = some (g.remove s t) := by
  refine if_neg ?_
  rintro ⟨hst, hsize⟩
  have hpos := Finset.card_pos.2 ⟨_, (h.contains_iff s t).1 hst⟩
  have hcard := h.size
  omega

theorem foldl_add (ps : List (κ × κ)) :
    (ps.foldl (fun g p => g.add p.1 p.2) g).Represents (r ∪ ps.toFinset) := by
  induction ps generalizing g r with
  | nil => simpa using h
  | cons p ps ih =>
    have hunion : r ∪ (p :: ps).toFinset = insert p r ∪ ps.toFinset := by simp
    rw [hunion]
    exact ih (h.add p.1 p.2)

theorem foldl_remove (ps : List (κ × κ)) :
    (ps.foldl (fun g p => g.remove p.1 p.2) g).Represents (r \ ps.toFinset) := by
  induction ps generalizing g r with
  | nil => simpa using h
  | cons p ps ih =>
    have hdiff : r \ (p :: ps).toFinset = r.erase p \ ps.toFinset := by
      rw [List.toFinset_cons, Finset.sdiff_insert, Finset.erase_sdiff_comm]
    rw [hdiff]
    exact ih (h.remove p.1 p.2)

theorem foldlM_remove? (ps : List (κ × κ)) :
    ps.foldlM (fun g p => g.remove? p.1 p.2) g = some (ps.foldl (fun g p => g.remove p.1 p.2) g) := by
  induction ps generalizing g r with
  | nil => rfl
  | cons p ps ih =>
    rw [List.foldlM_cons, h.remove?_eq]
    exact ih (h.remove p.1 p.2)

theorem replaceDependents (s : κ) (ts : List κ) :
    (g.replaceDependents s ts).Represents (changePairs r (.replaceDependents s ts)) := by
  have hrun := (h.foldl_remove ((g.dependentsOf s).map fun t => (s, t))).foldl_add
    (ts.map fun t => (s, t))
  rw [List.foldl_map, List.foldl_map] at hrun
  have hpairs : changePairs r (.replaceDependents s ts) =
      r \ ((g.dependentsOf s).map fun t => (s, t)).toFinset ∪ (ts.map fun t => (s, t)).toFinset := by
    ext ⟨a, b⟩
    simp only [changePairs, Finset.mem_union, Finset.mem_filter, Finset.mem_image, Finset.mem_sdiff,
      List.mem_toFinset, List.mem_map, Prod.mk.injEq, h.mem_iff]
    grind
  rw [hpairs]
  exact hrun

theorem replaceDependees (t : κ) (ss : List κ) :
    (g.replaceDependees t ss).Represents (changePairs r (.replaceDependees t ss)) := by
  have hrun := (h.foldl_remove ((g.dependeesOf t).map fun s => (s, t))).foldl_add
    (ss.map fun s => (s, t))
  rw [List.foldl_map, List.foldl_map] at hrun
  have hpairs : changePairs r (.replaceDependees t ss) =
      r \ ((g.dependeesOf t).map fun s => (s, t)).toFinset ∪ (ss.map fun s => (s, t)).toFinset := by
    ext ⟨a, b⟩
    simp only [changePairs, Finset.mem_union, Finset.mem_filter, Finset.mem_image, Finset.mem_sdiff,
      List.mem_toFinset, List.mem_map, Prod.mk.injEq, h.mem_dependeesOf_iff]
    grind
  rw [hpairs]
  exact hrun

theorem change (c : Change κ) : (g.change c).Represents (changePairs r c) := by
  cases c with
  | add s t => exact h.add s t
  | remove s t => exact h.remove s t
  | replaceDependents s ts => exact h.replaceDependents s ts
  | replaceDependees t ss => exact h.replaceDependees t ss

theorem replaceDependents?_eq (s : κ) (ts : List κ) :
    g.replaceDependents? s ts = some (g.replaceDependents s ts) := by
  have hclear := h.foldlM_remove? ((g.dependentsOf s).map fun t => (s, t))
  rw [List.foldlM_map, List.foldl_map] at hclear
  unfold Graph.replaceDependents?
  rw [hclear]
  rfl

theorem replaceDependees?_eq (t : κ) (ss : List κ) :
    g.replaceDependees? t ss = some (g.replaceDependees t ss) := by
  have hclear := h.foldlM_remove? ((g.dependeesOf t).map fun s => (s, t))
  rw [List.foldlM_map, List.foldl_map] at hclear
  unfold Graph.replaceDependees?
  rw [hclear]
  rfl

theorem change?_eq (c : Change κ) : g.change? c = some (g.change c) := by
  cases c with
  | add s t => rfl
  | remove s t => exact h.remove?_eq s t
  | replaceDependents s ts => exact h.replaceDependents?_eq s ts
  | replaceDependees t ss => exact h.replaceDependees?_eq t ss

theorem foldl_change (cs : List (Change κ)) :
    (cs.foldl Graph.change g).Represents (cs.foldl changePairs r) := by
  induction cs generalizing g r with
  | nil => exact h
  | cons c cs ih => exact ih (h.change c)

theorem foldlM_change? (cs : List (Change κ)) :
    cs.foldlM Graph.change? g = some (cs.foldl Graph.change g) := by
  induction cs generalizing g r with
  | nil => rfl
  | cons c cs ih =>
    rw [List.foldlM_cons, h.change?_eq]
    exact ih (h.change c)

end Represents

/-- The queries of a graph answer as those of a set of pairs. The lists have no key twice, and no key is
kept without neighbours in either direction. -/
structure Shows (g : Graph κ) (r : Finset (κ × κ)) : Prop where
  contains : ∀ s t, g.contains s t = true ↔ (s, t) ∈ r
  dependents : ∀ s t, t ∈ g.dependentsOf s ↔ (s, t) ∈ r
  dependees : ∀ s t, s ∈ g.dependeesOf t ↔ (s, t) ∈ r
  nodup : ∀ k, (g.dependentsOf k).Nodup ∧ (g.dependeesOf k).Nodup
  dependeesCount : ∀ t, g.dependeesCount t = (r.filter fun p => p.2 = t).card
  hasDependents : ∀ s, g.hasDependents s = true ↔ ∃ t, (s, t) ∈ r
  hasDependees : ∀ t, g.hasDependees t = true ↔ ∃ s, (s, t) ∈ r
  size : g.size = r.card
  isEmpty : g.isEmpty = true ↔ r = ∅
  pruned : ∀ k, (k, []) ∉ g.dependents ∧ (k, []) ∉ g.dependees

theorem Represents.dependeesCount {g : Graph κ} {r : Finset (κ × κ)} (h : g.Represents r) (t : κ) :
    g.dependeesCount t = (r.filter fun p => p.2 = t).card := by
  have hfilter : r.filter (fun p => p.2 = t) =
      (g.dependeesOf t).toFinset.image fun s => (s, t) := by
    ext ⟨a, b⟩
    simp only [Finset.mem_filter, Finset.mem_image, List.mem_toFinset, h.mem_dependeesOf_iff,
      Prod.mk.injEq]
    grind
  have hinj : Function.Injective fun s : κ => (s, t) := fun a b hab => congrArg Prod.fst hab
  have hnodup : (g.dependeesOf t).Nodup := h.dependees.nodup_neighbours t
  rw [hfilter, Finset.card_image_of_injective _ hinj, List.toFinset_card_of_nodup hnodup]
  rfl

theorem Represents.size_eq {g g' : Graph κ} {r r' : Finset (κ × κ)} (h : g.Represents r)
    (h' : g'.Represents r') (same : ∀ s t, t ∈ g.dependentsOf s ↔ t ∈ g'.dependentsOf s) :
    g.size = g'.size := by
  have hpairs : r = r' := by
    ext ⟨s, t⟩
    rw [← h.mem_iff, same, h'.mem_iff]
  rw [h.size, hpairs, h'.size]

theorem not_isEmpty_iff {α : Type} {ks : List α} {p : α → Prop} (h : ∀ k, k ∈ ks ↔ p k) :
    (!ks.isEmpty) = true ↔ ∃ k, p k := by
  cases ks with
  | nil => simpa using h
  | cons k ks => exact iff_of_true rfl ⟨k, (h k).1 List.mem_cons_self⟩

theorem Represents.shows {g : Graph κ} {r : Finset (κ × κ)} (h : g.Represents r) : g.Shows r where
  contains := h.contains_iff
  dependents := h.mem_iff
  dependees := h.mem_dependeesOf_iff
  nodup k := ⟨h.dependents.nodup_neighbours k, h.dependees.nodup_neighbours k⟩
  dependeesCount := h.dependeesCount
  hasDependents s := not_isEmpty_iff (h.mem_iff s)
  hasDependees t := not_isEmpty_iff fun s => h.mem_dependeesOf_iff s t
  size := h.size
  isEmpty := by
    rw [← Finset.card_eq_zero, ← h.size]
    exact beq_iff_eq
  pruned k := ⟨fun hk => h.dependents.nonempty _ hk rfl, fun hk => h.dependees.nonempty _ hk rfl⟩

/-- After any changes a graph shows the pairs that the same changes make of no pairs, and its size never
had to be counted down from zero on the way. -/
theorem afterChanges_shows (cs : List (Change κ)) :
    (afterChanges cs).Shows (pairsAfter cs) ∧ cs.foldlM change? empty = some (afterChanges cs) :=
  ⟨(empty_represents.foldl_change cs).shows, empty_represents.foldlM_change? cs⟩

end Graph
end Worksheet
