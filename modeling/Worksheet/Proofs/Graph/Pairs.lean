import Worksheet.Graph.Basic

set_option autoImplicit false

/-!
# The pairs of a graph

What the operations do to the set of pairs. Both directions list the same pairs, and new dependees for
a key replace exactly the pairs that end in it.
-/
namespace Worksheet

theorem Adjacency.mem_keys {κ : Type} [DecidableEq κ] {m : Adjacency κ} {k n : κ}
    (h : n ∈ m.neighbours k) : k ∈ m.keys := by
  refine (Table.mem_keys_iff m k).2 ?_
  unfold Adjacency.neighbours at h
  cases hk : Table.get? m k with
  | none => simp [hk] at h
  | some ns => rfl

namespace Graph

variable {κ : Type} [DecidableEq κ] {g : Graph κ}

/-- Both directions hold the same pairs. -/
def Consistent (g : Graph κ) : Prop := ∀ s t, t ∈ g.dependentsOf s ↔ s ∈ g.dependeesOf t

theorem empty_consistent : (empty : Graph κ).Consistent := by
  intro s t
  change t ∈ ([] : List κ) ↔ s ∈ ([] : List κ)
  simp

theorem Consistent.mem_keys (h : g.Consistent) {s t : κ} (ht : t ∈ g.dependentsOf s) :
    t ∈ g.dependees.keys :=
  Adjacency.mem_keys ((h s t).1 ht)

theorem mem_dependentsOf_add (g : Graph κ) (s t a b : κ) :
    b ∈ (g.add s t).dependentsOf a ↔ (a = s ∧ b = t) ∨ b ∈ g.dependentsOf a := by
  unfold add
  split
  · rename_i h
    refine ⟨.inr, ?_⟩
    rintro (⟨rfl, rfl⟩ | hb)
    · exact of_decide_eq_true h
    · exact hb
  · exact Adjacency.mem_neighbours_link _ _ _ _ _

theorem mem_dependentsOf_remove (g : Graph κ) (s t a b : κ) :
    b ∈ (g.remove s t).dependentsOf a ↔ ¬(a = s ∧ b = t) ∧ b ∈ g.dependentsOf a := by
  unfold remove
  split
  · exact Adjacency.mem_neighbours_unlink _ _ _ _ _
  · rename_i h
    refine ⟨fun hb => ⟨?_, hb⟩, And.right⟩
    rintro ⟨rfl, rfl⟩
    exact h (decide_eq_true hb)

theorem Consistent.add (h : g.Consistent) (s t : κ) : (g.add s t).Consistent := by
  intro a b
  rw [mem_dependentsOf_add]
  unfold Graph.add
  split
  · rename_i hst
    have present : t ∈ g.dependentsOf s := of_decide_eq_true hst
    rw [← h a b]
    refine ⟨?_, .inr⟩
    rintro (⟨rfl, rfl⟩ | hb)
    · exact present
    · exact hb
  · have hb := Adjacency.mem_neighbours_link g.dependees t s b a
    change _ ↔ a ∈ (g.dependees.link t s).neighbours b
    rw [hb, h a b, and_comm]
    rfl

theorem Consistent.remove (h : g.Consistent) (s t : κ) : (g.remove s t).Consistent := by
  intro a b
  rw [mem_dependentsOf_remove]
  unfold Graph.remove
  split
  · have hb := Adjacency.mem_neighbours_unlink g.dependees t s b a
    change _ ↔ a ∈ (g.dependees.unlink t s).neighbours b
    rw [hb, h a b, and_comm (a := b = t)]
    rfl
  · rename_i hst
    rw [← h a b]
    refine ⟨And.right, fun hb => ⟨?_, hb⟩⟩
    rintro ⟨rfl, rfl⟩
    exact hst (decide_eq_true hb)

section

variable (t : κ) (ss : List κ)

theorem mem_dependentsOf_foldl_add (g : Graph κ) (a b : κ) :
    b ∈ (ss.foldl (fun g s => g.add s t) g).dependentsOf a ↔
      (b = t ∧ a ∈ ss) ∨ b ∈ g.dependentsOf a := by
  induction ss generalizing g with
  | nil => simp
  | cons s ss ih =>
    rw [List.foldl_cons, ih, mem_dependentsOf_add, List.mem_cons]
    constructor
    · rintro (⟨hb, ha⟩ | ⟨ha, hb⟩ | hb)
      · exact .inl ⟨hb, .inr ha⟩
      · exact .inl ⟨hb, .inl ha⟩
      · exact .inr hb
    · rintro (⟨hb, ha | ha⟩ | hb)
      · exact .inr (.inl ⟨ha, hb⟩)
      · exact .inl ⟨hb, ha⟩
      · exact .inr (.inr hb)

theorem mem_dependentsOf_foldl_remove (g : Graph κ) (a b : κ) :
    b ∈ (ss.foldl (fun g s => g.remove s t) g).dependentsOf a ↔
      ¬(b = t ∧ a ∈ ss) ∧ b ∈ g.dependentsOf a := by
  induction ss generalizing g with
  | nil => simp
  | cons s ss ih =>
    rw [List.foldl_cons, ih, mem_dependentsOf_remove, List.mem_cons, ← and_assoc]
    refine and_congr_left fun _ => ?_
    constructor
    · rintro ⟨h, h'⟩ ⟨hb, ha | ha⟩
      · exact h' ⟨ha, hb⟩
      · exact h ⟨hb, ha⟩
    · exact fun h => ⟨fun h' => h ⟨h'.1, .inr h'.2⟩, fun h' => h ⟨h'.2, .inl h'.1⟩⟩

theorem Consistent.foldl_add (h : g.Consistent) :
    (ss.foldl (fun g s => g.add s t) g).Consistent := by
  induction ss generalizing g with
  | nil => exact h
  | cons s ss ih => exact ih (h.add s t)

theorem Consistent.foldl_remove (h : g.Consistent) :
    (ss.foldl (fun g s => g.remove s t) g).Consistent := by
  induction ss generalizing g with
  | nil => exact h
  | cons s ss ih => exact ih (h.remove s t)

theorem Consistent.replaceDependees (h : g.Consistent) :
    (g.replaceDependees t ss).Consistent :=
  (h.foldl_remove t _).foldl_add t ss

theorem Consistent.mem_dependentsOf_replaceDependees (h : g.Consistent) (a b : κ) :
    b ∈ (g.replaceDependees t ss).dependentsOf a ↔
      (b = t ∧ a ∈ ss) ∨ (b ≠ t ∧ b ∈ g.dependentsOf a) := by
  rw [Graph.replaceDependees, mem_dependentsOf_foldl_add, mem_dependentsOf_foldl_remove]
  refine or_congr_right (and_congr_left fun hb => ?_)
  constructor
  · rintro h' rfl
    exact h' ⟨rfl, (h a b).1 hb⟩
  · exact fun h' => fun hbt => h' hbt.1

end
end Graph
end Worksheet
