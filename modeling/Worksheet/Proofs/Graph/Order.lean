import Mathlib.Data.Set.Finite.Basic
import Worksheet.Proofs.Graph.Pairs
import Worksheet.Proofs.Graph.Walk

set_option autoImplicit false

/-!
# The order of recalculation

A walk over finitely many keys ends by itself. What it ends with depends on neither the number of steps
it was allowed nor the list of keys from which that number was taken.
-/
namespace Worksheet
open Relation

section

variable {κ : Type} [DecidableEq κ] {next : κ → List κ} {start : κ}

theorem Walk.run_of_le {w : Walk κ} {n m : Nat} {r : Except (Loop κ) (List κ)} (hnm : n ≤ m)
    (h : w.run next start n = some r) : w.run next start m = some r := by
  induction n generalizing w m with
  | zero => cases h
  | succ n ih =>
    obtain ⟨m, rfl⟩ := Nat.exists_eq_add_of_le' (Nat.le_of_add_left_le hnm)
    unfold Walk.run at h ⊢
    split
    · rename_i w' hw
      rw [hw] at h
      exact ih (Nat.le_of_succ_le_succ hnm) h
    · rename_i hw
      rwa [hw] at h

theorem Walk.run_unique {w : Walk κ} {n m : Nat} {r r' : Except (Loop κ) (List κ)}
    (h : w.run next start n = some r) (h' : w.run next start m = some r') : r = r' := by
  rcases Nat.le_total n m with hnm | hmn
  · exact Option.some.inj ((run_of_le hnm h).symm.trans h')
  · exact Option.some.inj (h.symm.trans (run_of_le hmn h'))

/-- Where `start` reaches finitely many keys, the walk from it ends: with the loop through `start` if
there is one, and else with all these keys in order, whatever loops there are away from `start`. -/
theorem recalculationOrder_of_finite (next : κ → List κ) (start : κ)
    (hfin : {k | ReflTransGen (Follows next) start k}.Finite) :
    ∃ result, (∃ n, (Walk.begin next start).run next start n = some result) ∧
      (∀ keys, (∀ k, ReflTransGen (Follows next) start k → k ∈ start :: keys) →
        recalculationOrder next keys start = result) ∧
      ((∃ loop, result = .error loop) ↔ TransGen (Follows next) start start) ∧
      (∀ loop, result = .error loop → IsLoop next start loop.path) ∧
      ∀ order, result = .ok order → IsOrder next start order := by
  have hk (k : κ) (hr : ReflTransGen (Follows next) start k) :
      k ∈ start :: hfin.toFinset.toList := by
    refine List.mem_cons_of_mem start ?_
    rw [Finset.mem_toList, Set.Finite.mem_toFinset]
    exact hr
  obtain ⟨ends, answer⟩ := run_recalculationOrder next hfin.toFinset.toList start hk
  generalize recalculationOrder next hfin.toFinset.toList start = result at ends answer
  refine ⟨result, ⟨_, ends⟩, fun keys hkeys => ?_, ?_⟩
  · exact Walk.run_unique (run_recalculationOrder next keys start hkeys).1 ends
  cases result with
  | ok order =>
    refine ⟨iff_of_false (by simp) answer.1, by simp, fun order' h => ?_⟩
    obtain rfl := Except.ok.inj h
    exact answer.2
  | error loop =>
    refine ⟨iff_of_true ⟨loop, rfl⟩ answer.transGen, fun loop' h => ?_, by simp⟩
    obtain rfl := Except.error.inj h
    exact answer

end

/-- From 0 on to 1, and from there to 2 and back. The way back is listed twice. -/
def loopAside (k : Nat) : List Nat := [[1], [2], [1, 1]].getD k []

/-- The loop between 1 and 2 is walked past from 0 and is found from 1. -/
theorem recalculationOrder_loopAside :
    {k | ReflTransGen (Follows loopAside) 0 k}.Finite ∧ IsOrder loopAside 0 [0, 1, 2] ∧
      {k | ReflTransGen (Follows loopAside) 1 k}.Finite ∧ IsLoop loopAside 1 [1, 2, 1] := by
  have reached {s k : Nat} (hs : s ∈ [0, 1, 2]) (h : ReflTransGen (Follows loopAside) s k) :
      k ∈ [0, 1, 2] := by
    have closed : ∀ u ∈ [0, 1, 2], ∀ v ∈ loopAside u, v ∈ [0, 1, 2] := by decide
    induction h with
    | refl => exact hs
    | tail _ huv ih => exact closed _ ih _ huv
  have finite {s : Nat} (hs : s ∈ [0, 1, 2]) : {k | ReflTransGen (Follows loopAside) s k}.Finite :=
    (List.finite_toSet [0, 1, 2]).subset fun k h => reached hs h
  have from_zero : {k | ReflTransGen (Follows loopAside) 0 k}.Finite := finite (by decide)
  have from_one : {k | ReflTransGen (Follows loopAside) 1 k}.Finite := finite (by decide)
  obtain ⟨r, -, hr, -, -, horder⟩ := recalculationOrder_of_finite loopAside 0 from_zero
  obtain ⟨r', -, hr', -, hloop, -⟩ := recalculationOrder_of_finite loopAside 1 from_one
  refine ⟨from_zero, horder _ ?_, from_one, hloop ⟨[1, 2, 1]⟩ ?_⟩
  · exact (hr [0, 1, 2] fun k h => List.mem_cons_of_mem 0 (reached (by decide) h)).symm
  · exact (hr' [0, 1, 2] fun k h => List.mem_cons_of_mem 1 (reached (by decide) h)).symm

namespace Graph

variable {κ : Type} [DecidableEq κ] {g : Graph κ}

theorem Consistent.reaches_mem (h : g.Consistent) {start k : κ}
    (hk : ReflTransGen (Follows g.dependentsOf) start k) : k ∈ start :: g.dependees.keys := by
  rcases ReflTransGen.cases_tail hk with rfl | ⟨u, -, huk⟩
  · exact List.mem_cons_self
  · exact List.mem_cons_of_mem start (h.mem_keys huk)

theorem Consistent.orderFrom_answers (h : g.Consistent) (start : κ) :
    Answers g.dependentsOf start (g.orderFrom start) :=
  recalculationOrder_answers _ _ start fun _ => h.reaches_mem

end Graph
end Worksheet
