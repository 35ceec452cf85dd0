import Worksheet.Graph.Order

set_option autoImplicit false

/-!
# Checks on orders and loops

What an order or a loop has to satisfy, as tests over a graph that do not walk it again.
-/
namespace Worksheet.Graph

variable {κ : Type} [DecidableEq κ]

def isChain (g : Graph κ) : List κ → Bool
  | s :: t :: keys => g.contains s t && g.isChain (t :: keys)
  | _ => true

/-- No key stands before one that it directly depends on. -/
def isSorted (g : Graph κ) : List κ → Bool
  | [] => true
  | key :: keys => keys.all (fun later => !g.contains later key) && g.isSorted keys

def isOrderFrom (g : Graph κ) (start : κ) (keys : List κ) : Bool :=
  decide (keys.head? = some start) && decide keys.Nodup && g.isSorted keys

/-- A loop from `start` back to it, over direct dependents up to one of the `last` keys and from there
over a pair that is not in the graph. -/
def isLoop (g : Graph κ) (start : κ) (last : List κ) (path : List κ) : Bool :=
  let keys := path.dropLast
  decide (path.getLast? = some start) && decide (keys.head? = some start) && decide keys.Nodup &&
    g.isChain keys && keys.getLast?.any last.contains

/-- For each key, the number of paths over direct dependents to one of the `last` keys. The keys have to be
listed before their dependents. -/
def pathCounts (g : Graph κ) (last : List κ) : List κ → List (κ × Nat)
  | [] => []
  | key :: keys =>
    let counts := g.pathCounts last keys
    let onward := (g.dependentsOf key).map fun next => (counts.lookup next).getD 0
    (key, (if key ∈ last then 1 else 0) + onward.foldr (· + ·) 0) :: counts

def loopCount (g : Graph κ) (start : κ) (last : List κ) : Nat :=
  match g.orderFrom start with
  | .error _ => 0
  | .ok order => ((g.pathCounts last order).lookup start).getD 0

end Worksheet.Graph
