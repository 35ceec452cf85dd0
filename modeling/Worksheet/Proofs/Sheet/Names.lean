import Worksheet.Proofs.Cell.Position
import Worksheet.Proofs.Sheet.Reachable

set_option autoImplicit false

/-!
# The names of a sheet

A sheet lists the names of its cells once each, by the numbers of their columns and rows. Since only
identical names are level, there is one such list, in whatever order the cells are kept.
-/
namespace Worksheet

namespace Cell

theorem compareNames_eq_iff (a b : String) : compareNames a b = .eq ↔ a = b := by
  refine ⟨eq_of_compareNames, ?_⟩
  rintro rfl
  have hswap := compareNames_swap a a
  cases h : compareNames a a with
  | eq => rfl
  | lt | gt =>
    rw [h] at hswap
    cases hswap

theorem compareNames_lt_trans {a b c : String} (hab : compareNames a b = .lt)
    (hbc : compareNames b c = .lt) : compareNames a c = .lt := by
  have hle : (compareNames a c).isLE :=
    compareNames_isLE_trans (b := b) (by rw [hab]; rfl) (by rw [hbc]; rfl)
  cases hac : compareNames a c with
  | lt => rfl
  | eq =>
    obtain rfl := eq_of_compareNames hac
    rw [compareNames_swap, hab] at hbc
    cases hbc
  | gt =>
    rw [hac] at hle
    cases hle

theorem compareNames_lt_of_ne {a b : String} (hle : (compareNames a b).isLE) (hne : a ≠ b) :
    compareNames a b = .lt := by
  cases h : compareNames a b with
  | lt => rfl
  | eq => exact absurd (eq_of_compareNames h) hne
  | gt =>
    rw [h] at hle
    cases hle

end Cell

namespace Sheet
open Cell

/-- The list of the names says which cells there are and nothing else. -/
structure Canonical (s : Sheet) : Prop where
  isCellName : ∀ n ∈ s.names, Cell.isCellName n = true
  sorted : s.names.Pairwise fun a b => compareNames a b = .lt
  nodup : s.names.Nodup
  mem_iff : ∀ n, n ∈ s.names ↔ (s.contentOf n).isEmpty = false
  /-- The cells may be kept in any order. -/
  unordered : ∀ cells : Table String Cell, cells.Perm s.cells → { s with cells }.names = s.names

variable {s : Sheet}

theorem Tidy.nodup_names (h : s.Tidy) : s.names.Nodup :=
  (List.mergeSort_perm s.cells.keys _).nodup_iff.2 h.nodup

theorem Tidy.sorted_names (h : s.Tidy) :
    s.names.Pairwise fun a b => compareNames a b = .lt := by
  have hle : s.names.Pairwise fun a b => (compareNames a b).isLE = true :=
    List.pairwise_mergeSort (fun _ b _ => compareNames_isLE_trans (b := b)) compareNames_isLE_total _
  exact (hle.and h.nodup_names).imp fun h => compareNames_lt_of_ne h.1 h.2

theorem Tidy.names_of_perm (h : s.Tidy) {cells : Table String Cell} (hperm : cells.Perm s.cells) :
    { s with cells }.names = s.names := by
  have hkeys : cells.keys.Perm s.cells.keys := hperm.map Prod.fst
  exact mergeSort_eq_of_mem_iff (hkeys.nodup_iff.2 h.nodup) h.nodup fun n => hkeys.mem_iff

theorem Tidy.isCellName_of_mem_names (h : s.Tidy) {n : String} (hn : n ∈ s.names) :
    Cell.isCellName n = true := by
  have hkey : n ∈ s.cells.keys := List.mem_mergeSort.1 hn
  exact isCellName_of_cellName (h.named n hkey)

theorem Tidy.canonical (h : s.Tidy) : s.Canonical :=
  ⟨fun _ => h.isCellName_of_mem_names, h.sorted_names, h.nodup_names, h.mem_names_iff,
    fun _ => h.names_of_perm⟩

/-- Sheet order is a total order in which only identical names are level, and on cell names it is the
order of their places. In this order a sheet that can be reached lists the cells that hold something,
each once, whatever order they are kept in. -/
theorem names_canonical {rules : Rules} {s : Sheet} (h : Reachable rules s) :
    (∀ a b, Cell.isCellName a = true → Cell.isCellName b = true →
      compareNames a b = comparePlaces a b) ∧
    (∀ a b, compareNames a b = .eq ↔ a = b) ∧
    (∀ a b, compareNames a b = (compareNames b a).swap) ∧
    (∀ a b c, compareNames a b = .lt → compareNames b c = .lt → compareNames a c = .lt) ∧
    s.Canonical :=
  ⟨fun _ _ => compareNames_eq_places, compareNames_eq_iff, compareNames_swap,
    fun _ _ _ => compareNames_lt_trans, h.tidy.canonical⟩

/-- Names that differ in letter case and leading zeros only, and a row and a column with one digit
more. -/
theorem names_canonical_zeros :
    Reachable .standard (afterEdits .standard [("a1", "x"), ("A01", "y")]) ∧
      compareNames "z99" "AA00" = comparePlaces "z99" "AA00" ∧
      compareNames "A01" "a1" = comparePlaces "A01" "a1" ∧
      (afterEdits .standard [("a1", "x"), ("A01", "y")]).Canonical := by
  have reached := reachable_afterEdits .standard [("a1", "x"), ("A01", "y")]
  obtain ⟨places, -, -, -, canonical⟩ := names_canonical reached
  exact ⟨reached, places "z99" "AA00" (by decide) (by decide), places "A01" "a1" (by decide)
    (by decide), canonical⟩

end Sheet
end Worksheet
