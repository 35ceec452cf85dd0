import Worksheet.Proofs.Graph.Relation
import Worksheet.Proofs.Sheet.History

set_option autoImplicit false

/-!
# Contents that are entered again

The raw text that a content gives stands for it in every edit. A cell can be given what it holds already:
the edges stay as they are, so that no loop closes, and the sheet has the same contents as before.
-/
namespace Worksheet.Sheet
open Relation

section entering

variable {s : Sheet} {name raw n : String} {c : Content}

theorem set_input (hn : s.cellName name = .ok n)
    (hc : Content.classify s.rules.naming raw = .ok c) : s.set n c.input = s.set name raw := by
  have hinput := Content.classify_input s.rules.naming_stable hc
  rw [set_of_valid s (cellName_of_cellName hn) hinput, set_of_valid s hn hc]

theorem Sound.follows_prospective_contentOf (hs : s.Sound) (n : String) :
    Follows (s.prospective n (s.contentOf n).vars) = Follows s.graph.dependentsOf := by
  funext u v
  rw [follows_prospective, hs.follows_iff]
  by_cases hv : v = n
  · simp [hv]
  · simp [hv]

theorem Sound.set_contentOf (hs : s.Sound) (hs' : s.Tidy) (hn : s.cellName name = .ok n) :
    ∃ t order, s.set name (s.contentOf n).input = .ok (t, order) ∧
      ∀ m, t.contentOf m = s.contentOf m := by
  obtain ⟨raw, hraw⟩ := hs'.written n
  have hinput := Content.classify_input s.rules.naming_stable hraw
  rcases set_answers hs.consistent hn hinput with ⟨order, he, -⟩ | ⟨loop, -, hloop⟩
  · refine ⟨_, order, he, fun m => ?_⟩
    rw [contentOf_recalculate, contentOf_commit]
    by_cases hm : m = n
    · rw [if_pos hm, hm]
    · rw [if_neg hm]
  · have closed := hloop.transGen
    rw [hs.follows_prospective_contentOf] at closed
    exact absurd closed (hs.acyclic n)

theorem changed_of_set {t : Sheet} {order : List String} (h : s.set name raw = .ok (t, order)) :
    t.changed = true := by
  obtain ⟨n, c, -, -, -, rfl⟩ := set_eq_ok h
  refine recalculate_induction (p := fun u => u.changed = true) rfl (fun u m hu => ?_) order
  unfold recalculateCell
  split
  · exact hu
  · exact hu

end entering

section counts

theorem afterEdits_represented (rules : Rules) (edits : List (String × String)) :
    ∃ r, (afterEdits rules edits).graph.Represents r := by
  refine afterEdits_induction (p := fun s => ∃ r, s.graph.Represents r) rules
    ⟨∅, Graph.empty_represents⟩ ?_ edits
  rintro s t name raw order ⟨r, hr⟩ h
  obtain ⟨n, c, -, -, -, rfl⟩ := set_eq_ok h
  rw [graph_recalculate]
  exact ⟨_, hr.replaceDependees n c.vars⟩

theorem Alike.size_eq {s t : Sheet} (h : s.Alike t) : s.size = t.size := by
  have hlength := congrArg List.length h.names
  unfold Sheet.names at hlength
  rwa [List.length_mergeSort, List.length_mergeSort, Table.keys, Table.keys, List.length_map,
    List.length_map] at hlength

end counts

/-- Under the name of its cell and with the raw text that its content gives, an edit has the outcome that
it had as it was written, and only a loop is in its way. What a cell holds, be it nothing, can always be
entered in it again, and then the sheet differs at most in that it counts as changed. -/
theorem set_input_same (rules : Rules) (edits : List (String × String)) {name n : String}
    (hn : (afterEdits rules edits).cellName name = .ok n) :
    (∀ raw c, Content.classify rules.naming raw = .ok c →
      (afterEdits rules edits).set n c.input = (afterEdits rules edits).set name raw ∧
        ((∃ t order, (afterEdits rules edits).set name raw = .ok (t, order)) ∨
          ∃ path, (afterEdits rules edits).set name raw = .error (.circular n path))) ∧
    ∃ c t order, (afterEdits rules edits).contents name = .ok c ∧
      (afterEdits rules edits).set name c.input = .ok (t, order) ∧
      t.Alike (afterEdits rules edits) ∧ t.rules = rules ∧
      t.size = (afterEdits rules edits).size ∧
      t.graph.size = (afterEdits rules edits).graph.size ∧ t.changed = true := by
  have hs := afterEdits_sound rules edits
  refine ⟨fun raw c hc => ?_, ?_⟩
  · rw [← rules_afterEdits rules edits] at hc
    refine ⟨set_input hn hc, ?_⟩
    rcases set_answers hs.consistent hn hc with ⟨order, he, -⟩ | ⟨loop, he, -⟩
    · exact .inl ⟨_, order, he⟩
    · exact .inr ⟨loop.path, he⟩
  · obtain ⟨t, order, he, hcontent⟩ := hs.set_contentOf (afterEdits_tidy rules edits) hn
    refine ⟨(afterEdits rules edits).contentOf n, t, order, ?_, he, ?_⟩
    · rw [contents, hn]
      rfl
    have hchanged := changed_of_set he
    have edited : t =
        afterEdits rules (edits ++ [(name, ((afterEdits rules edits).contentOf n).input)]) := by
      rw [afterEdits_append, List.foldl_cons, attempt_eq, he]
      rfl
    subst edited
    have alike := afterEdits_alike hcontent
    obtain ⟨r, hr⟩ := afterEdits_represented rules edits
    obtain ⟨r', hr'⟩ := afterEdits_represented rules
      (edits ++ [(name, ((afterEdits rules edits).contentOf n).input)])
    exact ⟨alike, rules_afterEdits rules _, alike.size_eq, hr'.size_eq hr alike.dependents, hchanged⟩

/-- In a sheet with formulas, a number and a text, the number is entered again as it was written, and every
cell with what it holds. The last of them is empty. -/
theorem set_input_same_upper :
    (∃ x, mixed.contentOf "A1" = .number x) ∧ mixed.contentOf "B1" = .text "it's two words" ∧
      mixed.contentOf "C1" = .formula ⟨[.var "A1"], "A1"⟩ ∧
      mixed.set "A1" "2" = mixed.set "a1" " 2.0" ∧
      ∀ name ∈ ["a1", "b1", "c1", "e1"], ∃ c t order, mixed.contents name = .ok c ∧
        mixed.set name c.input = .ok (t, order) ∧ t.Alike mixed ∧ t.changed = true := by
  let rules : Rules := ⟨"1", .upper, none, none⟩
  obtain ⟨x, hx, hinput, hcontent⟩ := contentOf_mixed
  have named {name n : String} (h : (new rules).cellName name = .ok n) :
      mixed.cellName name = .ok n := (cellName_afterEdits rules _ name).trans h
  have entered {name n : String} (h : (new rules).cellName name = .ok n) :
      ∃ c t order, mixed.contents name = .ok c ∧ mixed.set name c.input = .ok (t, order) ∧
        t.Alike mixed ∧ t.changed = true := by
    obtain ⟨c, t, order, hc, he, alike, -, -, -, hchanged⟩ := (set_input_same rules _ (named h)).2
    exact ⟨c, t, order, hc, he, alike, hchanged⟩
  have name_a1 : (new rules).cellName "a1" = .ok "A1" := by decide +kernel
  have number : mixed.set "A1" (Content.number x).input = mixed.set "a1" " 2.0" := by
    rw [mixed, rules_afterEdits] at hx
    exact ((set_input_same rules _ (named name_a1)).1 " 2.0" _ hx).1
  rw [Content.input, hinput] at number
  refine ⟨⟨x, hcontent "A1"⟩, hcontent "B1", hcontent "C1", number, ?_⟩
  simp only [List.forall_mem_cons]
  exact ⟨entered name_a1, entered (n := "B1") (by decide +kernel),
    entered (n := "C1") (by decide +kernel), entered (n := "E1") (by decide +kernel),
    List.forall_mem_nil _⟩

end Worksheet.Sheet
