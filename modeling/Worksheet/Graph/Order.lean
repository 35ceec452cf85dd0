import Worksheet.Graph.Basic

set_option autoImplicit false

/-!
# Recalculation order

One depth-first walk over the dependents of a key gives both answers. A key is finished after all its
dependents, so the keys in the reverse order of finishing list every key before its dependents. Meeting
the first key again means that it lies on a loop, and the walk ends with that loop.
-/
namespace Worksheet

structure Loop (κ : Type) where
  path : List κ
deriving DecidableEq

/-- A walk under way: the keys on the current path, innermost first, each with its dependents still to
visit; the keys met so far; and the finished keys, last finished first. -/
structure Walk (κ : Type) where
  path : List (κ × List κ)
  met : List κ
  finished : List κ

namespace Walk

variable {κ : Type} [DecidableEq κ]

def begin (next : κ → List κ) (start : κ) : Walk κ := ⟨[(start, next start)], [start], []⟩

def step (next : κ → List κ) (start : κ) (w : Walk κ) : Walk κ ⊕ Except (Loop κ) (List κ) :=
  match w.path with
  | [] => .inr (.ok w.finished)
  | (k, []) :: path => .inl ⟨path, w.met, k :: w.finished⟩
  | (k, n :: ns) :: path =>
    if n = start then .inr (.error ⟨(w.path.map Prod.fst).reverse ++ [start]⟩)
    else if n ∈ w.met then .inl ⟨(k, ns) :: path, w.met, w.finished⟩
    else .inl ⟨(n, next n) :: (k, ns) :: path, n :: w.met, w.finished⟩

def run (next : κ → List κ) (start : κ) : Nat → Walk κ → Option (Except (Loop κ) (List κ))
  | 0, _ => none
  | n + 1, w =>
    match w.step next start with
    | .inl w => run next start n w
    | .inr result => some result

end Walk

section

variable {κ : Type} [DecidableEq κ]

/-- Enough steps for a walk that meets only the given keys: one for each key and each of its
dependents, and one to end. -/
def walkLength (next : κ → List κ) : List κ → Nat
  | [] => 1
  | k :: keys => (next k).length + 1 + walkLength next keys

/-- Every key that `start` reaches through `next`, each after all it depends on, for a `next` under
which `start` reaches only `keys`; or the loop through `start`. -/
def recalculationOrder (next : κ → List κ) (keys : List κ) (start : κ) :
    Except (Loop κ) (List κ) :=
  ((Walk.begin next start).run next start (walkLength next (start :: keys))).getD (.ok [])

namespace Graph

def orderFrom (g : Graph κ) (start : κ) : Except (Loop κ) (List κ) :=
  recalculationOrder g.dependentsOf g.dependees.keys start

/-- The dependents of a key with those from more pairs, in the order of texts. -/
def dependentsWith (g : Graph String) (extra : List (String × String)) (k : String) : List String :=
  let added := (extra.filter fun p => p.1 == k).map Prod.snd
  ((g.dependentsOf k ++ added).mergeSort fun a b => decide (a ≤ b)).eraseDups

def orderWith (g : Graph String) (extra : List (String × String)) (start : String) :
    Except (Loop String) (List String) :=
  recalculationOrder (g.dependentsWith extra) (g.dependees.keys ++ extra.map Prod.snd) start

def loopThrough? (g : Graph κ) (start : κ) : Option (Loop κ) :=
  match g.orderFrom start with
  | .ok _ => none
  | .error loop => some loop

end Graph
end
end Worksheet
