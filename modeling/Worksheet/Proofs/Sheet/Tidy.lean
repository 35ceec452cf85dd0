import Worksheet.Proofs.Cell.Content
import Worksheet.Proofs.Cell.Order
import Worksheet.Proofs.Sheet.Recalculation

set_option autoImplicit false

/-!
# The cells of a sheet

A sheet has a cell under each name that has content and under no other, and names are as the rules
want them. Sheets that agree in their contents therefore agree in their names, values and edges.
-/
namespace Worksheet

theorem Content.classify_empty (naming : Naming) : classify naming "" = .ok .empty := rfl

namespace Sheet

theorem cellName_eq_ok {s : Sheet} {name n : String} :
    s.cellName name = .ok n ↔ s.rules.normalize name = n ∧ s.rules.acceptsCell n = true := by
  unfold cellName
  dsimp only
  by_cases h : s.rules.acceptsCell (s.rules.normalize name) = true
  · rw [if_pos h, Except.ok.injEq]
    refine ⟨?_, And.left⟩
    rintro rfl
    exact ⟨rfl, h⟩
  · rw [if_neg h]
    refine iff_of_false (by simp) ?_
    rintro ⟨rfl, hn⟩
    exact h hn

theorem cellName_of_cellName {s : Sheet} {name n : String} (h : s.cellName name = .ok n) :
    s.cellName n = .ok n := by
  obtain ⟨rfl, hn⟩ := cellName_eq_ok.1 h
  exact cellName_eq_ok.2 ⟨s.rules.letterCase.apply_apply name, hn⟩

theorem isCellName_of_cellName {s : Sheet} {name n : String} (h : s.cellName name = .ok n) :
    Cell.isCellName n = true := by
  have haccepts := (cellName_eq_ok.1 h).2
  unfold Rules.acceptsCell at haccepts
  exact (Bool.and_eq_true_iff.1 haccepts).1

/-- What holds of the cells of a sheet between two edits. -/
structure Tidy (s : Sheet) : Prop where
  nodup : s.cells.keys.Nodup
  nonempty : ∀ n ∈ s.cells.keys, (s.contentOf n).isEmpty = false
  named : ∀ n ∈ s.cells.keys, s.cellName n = .ok n
  written : ∀ n, ∃ raw, Content.classify s.rules.naming raw = .ok (s.contentOf n)

theorem mem_keys_of_nonempty {s : Sheet} {n : String} (h : (s.contentOf n).isEmpty = false) :
    n ∈ s.cells.keys := by
  rw [Table.mem_keys_iff]
  cases hn : s.cells.get? n with
  | none =>
    unfold contentOf at h
    rw [hn] at h
    cases h
  | some _ => rfl

theorem Tidy.mem_keys_iff {s : Sheet} (h : s.Tidy) (n : String) :
    n ∈ s.cells.keys ↔ (s.contentOf n).isEmpty = false :=
  ⟨h.nonempty n, mem_keys_of_nonempty⟩

theorem Tidy.mem_names_iff {s : Sheet} (h : s.Tidy) (n : String) :
    n ∈ s.names ↔ (s.contentOf n).isEmpty = false :=
  List.mem_mergeSort.trans (h.mem_keys_iff n)

theorem new_tidy (rules : Rules) : (new rules).Tidy := by
  refine ⟨List.nodup_nil, ?_, ?_, fun n => ⟨"", Content.classify_empty _⟩⟩
  · intro n hn
    cases hn
  · intro n hn
    cases hn

theorem mem_keys_recalculateCell (s : Sheet) (n m : String) :
    m ∈ (s.recalculateCell n).cells.keys ↔ m ∈ s.cells.keys := by
  unfold recalculateCell
  cases hn : s.cells.get? n with
  | none => rfl
  | some cell =>
    simp only [Table.mem_keys_iff, Table.get?_insert]
    by_cases h : m = n
    · simp [h, hn]
    · simp [h]

theorem Tidy.recalculateCell {s : Sheet} (h : s.Tidy) (n : String) : (s.recalculateCell n).Tidy := by
  refine ⟨?_, ?_, ?_, ?_⟩
  · unfold Sheet.recalculateCell
    split
    · exact h.nodup
    · exact Table.nodup_keys_insert h.nodup _ _
  · intro m hm
    rw [contentOf_recalculateCell]
    exact h.nonempty m ((mem_keys_recalculateCell s n m).1 hm)
  · intro m hm
    rw [cellName_eq_ok, rules_recalculateCell, ← cellName_eq_ok]
    exact h.named m ((mem_keys_recalculateCell s n m).1 hm)
  · intro m
    rw [contentOf_recalculateCell, rules_recalculateCell]
    exact h.written m

theorem Tidy.recalculate {s : Sheet} (h : s.Tidy) (names : List String) :
    (s.recalculate names).Tidy :=
  recalculate_induction h (fun _ n hs => hs.recalculateCell n) names

theorem mem_keys_commit (s : Sheet) (n : String) (c : Content) (m : String) :
    m ∈ (s.commit n c).cells.keys ↔
      (m = n ∧ c.isEmpty = false) ∨ (m ≠ n ∧ m ∈ s.cells.keys) := by
  unfold commit
  simp only [Table.mem_keys_iff]
  by_cases hm : m = n
  · cases he : c.isEmpty with
    | true => simp [hm, Table.get?_erase]
    | false => simp [hm, Table.get?_insert]
  · cases he : c.isEmpty with
    | true => simp [hm, Table.get?_erase]
    | false => simp [hm, Table.get?_insert]

theorem Tidy.commit {s : Sheet} (h : s.Tidy) {name n raw : String} {c : Content}
    (hn : s.cellName name = .ok n) (hc : Content.classify s.rules.naming raw = .ok c) :
    (s.commit n c).Tidy := by
  refine ⟨?_, ?_, ?_, ?_⟩
  · unfold Sheet.commit
    dsimp only
    split
    · exact Table.nodup_keys_erase h.nodup n
    · exact Table.nodup_keys_insert h.nodup n _
  · intro m hm
    rw [contentOf_commit]
    rcases (mem_keys_commit s n c m).1 hm with ⟨hm, he⟩ | ⟨hm, hold⟩
    · rw [if_pos hm, he]
    · rw [if_neg hm]
      exact h.nonempty m hold
  · intro m hm
    rcases (mem_keys_commit s n c m).1 hm with ⟨rfl, -⟩ | ⟨-, hold⟩
    · exact cellName_of_cellName hn
    · exact h.named m hold
  · intro m
    rw [contentOf_commit]
    by_cases hm : m = n
    · rw [if_pos hm]
      exact ⟨raw, hc⟩
    · rw [if_neg hm]
      exact h.written m

theorem afterEdits_tidy (rules : Rules) (edits : List (String × String)) :
    (afterEdits rules edits).Tidy := by
  refine afterEdits_induction rules (new_tidy rules) (fun s s' name raw order hs h => ?_) edits
  obtain ⟨n, c, hn, hc, -, rfl⟩ := set_eq_ok h
  exact (hs.commit hn hc).recalculate order

structure Alike (s t : Sheet) : Prop where
  names : s.names = t.names
  contentOf : ∀ n, s.contentOf n = t.contentOf n
  valueOf : ∀ n, s.valueOf n = t.valueOf n
  dependents : ∀ v n, n ∈ s.graph.dependentsOf v ↔ n ∈ t.graph.dependentsOf v
  dependees : ∀ v n, v ∈ s.graph.dependeesOf n ↔ v ∈ t.graph.dependeesOf n

/-- Contents decide all the rest of a sheet. -/
theorem alike_of_contentOf {s t : Sheet} (hs : s.Sound) (ht : t.Sound) (hs' : s.Tidy) (ht' : t.Tidy)
    (h : ∀ n, s.contentOf n = t.contentOf n) : s.Alike t := by
  have dependents (v n : String) : n ∈ s.graph.dependentsOf v ↔ n ∈ t.graph.dependentsOf v := by
    refine (hs.follows_iff v n).trans ?_
    rw [h]
    exact (ht.follows_iff v n).symm
  refine ⟨?_, h, ?_, dependents, ?_⟩
  · refine Cell.mergeSort_eq_of_mem_iff hs'.nodup ht'.nodup fun n => ?_
    rw [hs'.mem_keys_iff, h, ht'.mem_keys_iff]
  · intro n
    have hx := hs.fromScratch n
    rw [show s.contentOf = t.contentOf from funext h] at hx
    exact hx.unique (ht.fromScratch n)
  · intro v n
    rw [← hs.consistent, dependents, ht.consistent]

end Sheet
end Worksheet
