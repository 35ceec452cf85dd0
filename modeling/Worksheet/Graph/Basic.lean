import Worksheet.Graph.Adjacency

set_option autoImplicit false

/-!
# The dependency graph

Ordered pairs `(s, t)` of keys, meaning that `t` depends on `s`. Both directions are kept, so that the
dependents and the dependees of a key are listed without a search. The graph knows nothing of cells.
-/
namespace Worksheet

structure Graph (κ : Type) where
  dependents : Adjacency κ
  dependees : Adjacency κ
  size : Nat

namespace Graph

variable {κ : Type} [DecidableEq κ]

def empty : Graph κ := ⟨[], [], 0⟩

def isEmpty (g : Graph κ) : Bool := g.size == 0

def dependentsOf (g : Graph κ) (s : κ) : List κ := g.dependents.neighbours s

def dependeesOf (g : Graph κ) (t : κ) : List κ := g.dependees.neighbours t

def hasDependents (g : Graph κ) (s : κ) : Bool := !(g.dependentsOf s).isEmpty

def hasDependees (g : Graph κ) (t : κ) : Bool := !(g.dependeesOf t).isEmpty

def dependeesCount (g : Graph κ) (t : κ) : Nat := (g.dependeesOf t).length

def contains (g : Graph κ) (s t : κ) : Bool := decide (t ∈ g.dependentsOf s)

/-- Add a pair; one that is present stays as it is. -/
def add (g : Graph κ) (s t : κ) : Graph κ :=
  if g.contains s t then g
  else ⟨g.dependents.link s t, g.dependees.link t s, g.size + 1⟩

def remove (g : Graph κ) (s t : κ) : Graph κ :=
  if g.contains s t then ⟨g.dependents.unlink s t, g.dependees.unlink t s, g.size - 1⟩
  else g

def replaceDependents (g : Graph κ) (s : κ) (ts : List κ) : Graph κ :=
  let cleared := (g.dependentsOf s).foldl (fun g t => g.remove s t) g
  ts.foldl (fun g t => g.add s t) cleared

def replaceDependees (g : Graph κ) (t : κ) (ss : List κ) : Graph κ :=
  let cleared := (g.dependeesOf t).foldl (fun g s => g.remove s t) g
  ss.foldl (fun g s => g.add s t) cleared

end Graph
end Worksheet
