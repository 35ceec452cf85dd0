import Worksheet.Table

set_option autoImplicit false

/-!
# Adjacency lists

Each key with its neighbours. Only keys that have a neighbour are listed.
-/
namespace Worksheet

abbrev Adjacency (κ : Type) := Table κ (List κ)

namespace Adjacency

variable {κ : Type} [DecidableEq κ]

def keys (m : Adjacency κ) : List κ := Table.keys m

def neighbours (m : Adjacency κ) (k : κ) : List κ := (Table.get? m k).getD []

/-- Set the neighbours of a key; a key left without any is dropped. -/
def assign (m : Adjacency κ) (k : κ) (ns : List κ) : Adjacency κ :=
  if ns = [] then Table.erase m k else Table.insert m k ns

def link (m : Adjacency κ) (k n : κ) : Adjacency κ := m.assign k (n :: m.neighbours k)

def unlink (m : Adjacency κ) (k n : κ) : Adjacency κ :=
  m.assign k ((m.neighbours k).filter fun x => decide (x ≠ n))

theorem neighbours_assign (m : Adjacency κ) (k k' : κ) (ns : List κ) :
    (m.assign k ns).neighbours k' = if k' = k then ns else m.neighbours k' := by
  unfold assign neighbours
  by_cases h : ns = []
  · rw [if_pos h, Table.get?_erase]
    by_cases hk : k' = k <;> simp [hk, h]
  · rw [if_neg h, Table.get?_insert]
    by_cases hk : k' = k <;> simp [hk]

theorem mem_neighbours_link (m : Adjacency κ) (k n k' n' : κ) :
    n' ∈ (m.link k n).neighbours k' ↔ (k' = k ∧ n' = n) ∨ n' ∈ m.neighbours k' := by
  rw [link, neighbours_assign]
  by_cases h : k' = k
  · simp [h]
  · simp [h]

theorem mem_neighbours_unlink (m : Adjacency κ) (k n k' n' : κ) :
    n' ∈ (m.unlink k n).neighbours k' ↔ ¬(k' = k ∧ n' = n) ∧ n' ∈ m.neighbours k' := by
  rw [unlink, neighbours_assign]
  by_cases h : k' = k
  · simp [h, and_comm]
  · simp [h]

end Adjacency
end Worksheet
