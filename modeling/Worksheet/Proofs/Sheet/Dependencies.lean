import Worksheet.Proofs.Sheet.Circular
import Worksheet.Proofs.Sheet.Tidy

set_option autoImplicit false

/-!
# The dependencies of a sheet

The graph of a sheet says which formula names which cell, for formulas that are in the sheet and no
others. All names in it are as the rules want them, and it has no loop.
-/
namespace Worksheet
open Relation

theorem Content.mem_vars_iff {c : Content} {v : String} :
    v ∈ c.vars ↔ ∃ f, c = .formula f ∧ .var v ∈ f.tokens := by
  cases c with
  | formula f =>
    refine (f.mem_vars v).trans ⟨fun h => ⟨f, rfl, h⟩, ?_⟩
    rintro ⟨g, hg, h⟩
    rwa [Content.formula.inj hg]
  | number _ | text _ => exact iff_of_false List.not_mem_nil (by simp)

namespace Sheet

theorem Tidy.cellName_of_mem_vars {s : Sheet} (hs : s.Tidy) {v n : String}
    (hv : v ∈ (s.contentOf n).vars) : s.cellName v = .ok v := by
  obtain ⟨raw, hraw⟩ := hs.written n
  obtain ⟨f, hf, hmem⟩ := Content.mem_vars_iff.1 hv
  rw [hf] at hraw
  obtain ⟨text, htext⟩ := Content.parse_of_classify hraw
  obtain ⟨hnormal, -, haccepts⟩ := Formula.var_of_parse s.rules.naming_stable htext hmem
  exact cellName_eq_ok.2 ⟨hnormal, haccepts⟩

/-- Store and graph say the same: there is an edge for each variable of a formula in the sheet and no
other. No name breaks the rules, and nothing is in the way of recalculating from any cell. -/
structure InStep (s : Sheet) : Prop where
  dependents_iff : ∀ v n, n ∈ s.graph.dependentsOf v ↔
    ∃ f, s.contentOf n = .formula f ∧ .var v ∈ f.tokens
  dependees_iff : ∀ v n, v ∈ s.graph.dependeesOf n ↔
    ∃ f, s.contentOf n = .formula f ∧ .var v ∈ f.tokens
  nonempty : ∀ n cell, s.cells.get? n = some cell → cell.content.isEmpty = false
  named : ∀ n, (n ∈ s.cells.keys ∨ ∃ m, n ∈ s.graph.dependentsOf m ∨ m ∈ s.graph.dependentsOf n) →
    s.rules.normalize n = n ∧ Cell.isCellName n = true ∧ s.rules.accepts n = true
  acyclic : ∀ n, ¬s.DependsOn n n
  ordered : ∀ name n, s.cellName name = .ok n →
    ∃ order, s.orderFrom name = .ok order ∧ IsOrder s.graph.dependentsOf n order

theorem Sound.orderFrom_eq_ok {s : Sheet} (hs : s.Sound) {name n : String}
    (hn : s.cellName name = .ok n) :
    ∃ order, s.orderFrom name = .ok order ∧ IsOrder s.graph.dependentsOf n order := by
  have answer := hs.consistent.orderFrom_answers n
  unfold orderFrom
  rw [hn]
  dsimp only
  cases ho : s.graph.orderFrom n with
  | ok order =>
    rw [ho] at answer
    exact ⟨order, rfl, answer.2⟩
  | error loop =>
    rw [ho] at answer
    exact absurd answer.transGen (hs.acyclic n)

theorem Sound.inStep {s : Sheet} (hs : s.Sound) (hs' : s.Tidy) : s.InStep := by
  have edge_iff (v n : String) : n ∈ s.graph.dependentsOf v ↔
      ∃ f, s.contentOf n = .formula f ∧ .var v ∈ f.tokens :=
    (hs.follows_iff v n).trans Content.mem_vars_iff
  refine ⟨edge_iff, fun v n => (hs.consistent v n).symm.trans (edge_iff v n), ?_, ?_, hs.acyclic,
    fun _ _ => hs.orderFrom_eq_ok⟩
  · intro n cell hn
    have hkey : n ∈ s.cells.keys := by
      rw [Table.mem_keys_iff, hn]
      rfl
    have hcontent : s.contentOf n = cell.content := by
      unfold contentOf
      rw [hn]
      rfl
    exact hcontent ▸ hs'.nonempty n hkey
  · intro n hn
    have valid : s.cellName n = .ok n := by
      rcases hn with hkey | ⟨m, hmn | hnm⟩
      · exact hs'.named n hkey
      · refine hs'.named n (mem_keys_of_nonempty ?_)
        obtain ⟨f, hf, -⟩ := (edge_iff m n).1 hmn
        rw [hf]
        rfl
      · exact hs'.cellName_of_mem_vars ((hs.follows_iff n m).1 hnm)
    obtain ⟨hnormal, haccepts⟩ := cellName_eq_ok.1 valid
    exact ⟨hnormal, Bool.and_eq_true_iff.1 haccepts⟩

/-- After any edits, refused ones among them, the graph has the pairs that the formulas in the sheet
ask for and no others, no cell is empty, all names are valid, and no cell depends on itself. -/
theorem afterEdits_inStep (rules : Rules) (edits : List (String × String)) :
    (afterEdits rules edits).rules = rules ∧ (afterEdits rules edits).InStep :=
  ⟨rules_afterEdits rules edits, (afterEdits_sound rules edits).inStep (afterEdits_tidy rules edits)⟩

end Sheet
end Worksheet
