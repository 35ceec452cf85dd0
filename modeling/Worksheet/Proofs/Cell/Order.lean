import Worksheet.Cell.Name

set_option autoImplicit false

/-!
# Sheet order

Sheet order is a total order in which only identical names are level, so a list without repetition is
sorted in one way only.
-/
namespace Worksheet.Cell
open Std

instance transCmp_compareRuns : TransCmp compareRuns :=
  inferInstanceAs (TransCmp (compareLex (compareOn List.length) (compare (α := List Char))))

/-- How cell names compare, given the keys of both. -/
def compareKeyed (x y : (List Char × List Char) × String) : Ordering :=
  ((compareRuns x.1.1 y.1.1).then (compareRuns x.1.2 y.1.2)).then (compare x.2 y.2)

instance transCmp_compareKeyed : TransCmp compareKeyed := by
  have letters : TransCmp fun x y : (List Char × List Char) × String => compareRuns x.1.1 y.1.1 :=
    { eq_swap := OrientedCmp.eq_swap, isLE_trans := TransCmp.isLE_trans }
  have digits : TransCmp fun x y : (List Char × List Char) × String => compareRuns x.1.2 y.1.2 :=
    { eq_swap := OrientedCmp.eq_swap, isLE_trans := TransCmp.isLE_trans }
  exact inferInstanceAs (TransCmp (compareLex (compareLex _ _) (compareOn Prod.snd)))

theorem compareNames_eq (a b : String) : compareNames a b =
    match nameKey? a, nameKey? b with
    | some ka, some kb => compareKeyed (ka, a) (kb, b)
    | some _, none => .lt
    | none, some _ => .gt
    | none, none => compare a b := by
  unfold compareNames
  cases nameKey? a <;> cases nameKey? b <;> rfl

theorem compareNames_swap (a b : String) : compareNames a b = (compareNames b a).swap := by
  rw [compareNames_eq a b, compareNames_eq b a]
  cases nameKey? a with
  | none =>
    cases nameKey? b with
    | none => exact OrientedOrd.eq_swap
    | some _ => rfl
  | some _ =>
    cases nameKey? b with
    | none => rfl
    | some _ => exact transCmp_compareKeyed.eq_swap

theorem compareNames_isLE_trans {a b c : String} (hab : (compareNames a b).isLE)
    (hbc : (compareNames b c).isLE) : (compareNames a c).isLE := by
  rw [compareNames_eq] at hab hbc ⊢
  cases ha : nameKey? a with
  | none =>
    cases hb : nameKey? b with
    | none =>
      cases hc : nameKey? c with
      | none =>
        simp only [ha, hb, hc] at hab hbc ⊢
        exact TransOrd.isLE_trans hab hbc
      | some _ => simp [hb, hc] at hbc
    | some _ => simp [ha, hb] at hab
  | some _ =>
    cases hc : nameKey? c with
    | none => rfl
    | some _ =>
      cases hb : nameKey? b with
      | none => simp [hb, hc] at hbc
      | some _ =>
        simp only [ha, hb, hc] at hab hbc ⊢
        exact transCmp_compareKeyed.isLE_trans hab hbc

theorem eq_of_compareNames {a b : String} (h : compareNames a b = .eq) : a = b := by
  rw [compareNames_eq] at h
  cases ha : nameKey? a with
  | none =>
    cases hb : nameKey? b with
    | none =>
      simp only [ha, hb] at h
      exact LawfulEqOrd.eq_of_compare h
    | some _ => simp [ha, hb] at h
  | some _ =>
    cases hb : nameKey? b with
    | none => simp [ha, hb] at h
    | some _ =>
      simp only [ha, hb, compareKeyed, Ordering.then_eq_eq] at h
      exact LawfulEqOrd.eq_of_compare h.2

theorem compareNames_isLE_total (a b : String) :
    ((compareNames a b).isLE || (compareNames b a).isLE) = true := by
  rw [compareNames_swap b a]
  cases compareNames a b <;> rfl

theorem compareNames_isLE_antisymm {a b : String} (hab : (compareNames a b).isLE)
    (hba : (compareNames b a).isLE) : a = b := by
  apply eq_of_compareNames
  rw [compareNames_swap b a] at hba
  cases h : compareNames a b with
  | lt => simp [h] at hba
  | eq => rfl
  | gt => simp [h] at hab

/-- Lists without repetition that have the same names are the same in sheet order. -/
theorem mergeSort_eq_of_mem_iff {names names' : List String} (h : names.Nodup) (h' : names'.Nodup)
    (hmem : ∀ n, n ∈ names ↔ n ∈ names') :
    (names.mergeSort fun a b => (compareNames a b).isLE) =
      names'.mergeSort fun a b => (compareNames a b).isLE := by
  generalize hle : (fun a b => (compareNames a b).isLE) = le
  have sorted (l : List String) : (l.mergeSort le).Pairwise fun a b => le a b := by
    subst hle
    refine List.pairwise_mergeSort ?_ ?_ l
    · intro a b c hab hbc
      exact compareNames_isLE_trans (b := b) hab hbc
    · intro a b
      exact compareNames_isLE_total a b
  have same : names.Perm names' := (List.perm_ext_iff_of_nodup h h').2 hmem
  have perm : (names.mergeSort le).Perm (names'.mergeSort le) :=
    ((List.mergeSort_perm names le).trans same).trans (List.mergeSort_perm names' le).symm
  refine perm.eq_of_pairwise (fun a b _ _ hab hba => ?_) (sorted names) (sorted names')
  subst hle
  exact compareNames_isLE_antisymm hab hba

end Worksheet.Cell
