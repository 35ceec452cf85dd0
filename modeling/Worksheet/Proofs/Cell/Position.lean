import Worksheet.Number.Numeral
import Worksheet.Proofs.Cell.Name
import Worksheet.Proofs.Cell.Order
import Worksheet.Proofs.Number.Numeral

set_option autoImplicit false

/-!
# Columns and rows

The letters of a cell name number its column, in base 26 and without a digit for zero; its digits number
the row. Sheet order looks at the lengths of the two runs and then at their characters, and that is the
order of the numbers, however large they are.
-/
namespace Worksheet.Cell
open Worksheet.Text

def letterNumber (c : Char) : Nat :=
  if c.isUpper then c.toNat - 'A'.toNat + 1 else c.toNat - 'a'.toNat + 1

/-- The number of the column: `A` is 1, `Z` is 26 and `AA` is 27, in capitals or not. -/
def column (name : String) : Nat :=
  (name.toList.takeWhile Char.isAlpha).foldl (fun n c => 26 * n + letterNumber c) 0

def row (name : String) : Nat := Number.digitsValue (name.toList.dropWhile Char.isAlpha)

/-- By column, then by row, and by the code points of the names where both are the same. -/
def comparePlaces (a b : String) : Ordering :=
  ((compare (column a) (column b)).then (compare (row a) (row b))).then
    (compare (a.toList.map Char.toNat) (b.toList.map Char.toNat))

section codes

theorem compare_toNat (c d : Char) : compare c.toNat d.toNat = compare c d := by
  change compareOfLessAndEq c.toNat d.toNat = compareOfLessAndEq c d
  unfold compareOfLessAndEq
  simp only [Char.toNat_inj]
  rfl

theorem compare_map_toNat (cs ds : List Char) :
    compare (cs.map Char.toNat) (ds.map Char.toNat) = compareOfLessAndEq cs ds := by
  induction cs generalizing ds with
  | nil =>
    cases ds with
    | nil => rfl
    | cons d ds => rfl
  | cons c cs ih =>
    cases ds with
    | nil => rfl
    | cons d ds =>
      rw [List.map_cons, List.map_cons, List.compare_eq_compareLex, List.compareLex_cons_cons,
        ← List.compare_eq_compareLex, ih]
      unfold compareOfLessAndEq
      simp only [List.cons_lt_cons_iff, List.cons.injEq]
      rcases Nat.lt_trichotomy c.toNat d.toNat with hlt | heq | hgt
      · have hcd : c < d := hlt
        simp [Nat.compare_eq_lt.2 hlt, hcd]
      · obtain rfl := Char.toNat_inj.1 heq
        simp
      · have hdc : d < c := hgt
        have hne : c ≠ d := fun he => by simp [he] at hgt
        simp [Nat.compare_eq_gt.2 hgt, hne, Char.lt_asymm hdc]

theorem compare_codes (a b : String) :
    compare (a.toList.map Char.toNat) (b.toList.map Char.toNat) = compare a b := by
  rw [compare_map_toNat]
  change _ = compareOfLessAndEq a b
  unfold compareOfLessAndEq
  simp only [String.lt_iff, String.toList_inj]

end codes

section numerals

/-- The number that a run stands for in base `b`, where the character with code `z` counts as zero and
the digits of `n` stand in front of the run. -/
def numeralFrom (z b n : Nat) (cs : List Char) : Nat :=
  cs.foldl (fun n c => b * n + (c.toNat - z)) n

/-- The characters of a run are the `b` digits that count from `k` on. -/
def Digits (z b k : Nat) (cs : List Char) : Prop := ∀ c ∈ cs, z + k ≤ c.toNat ∧ c.toNat < z + k + b

/-- Digits without a zero in front. -/
structure IsNumeral (z b k : Nat) (cs : List Char) : Prop where
  digits : Digits z b k cs
  lead : ∀ c, cs.head? = some c → z < c.toNat

variable {z b k : Nat} {cs ds : List Char}

theorem Digits.tail {c : Char} (h : Digits z b k (c :: cs)) : Digits z b k cs :=
  fun d hd => h d (List.mem_cons_of_mem c hd)

theorem numeralFrom_lt (hcs : Digits z b k cs) (hds : Digits z b k ds)
    (hlen : cs.length = ds.length) {m n : Nat} (h : m < n) :
    numeralFrom z b m cs < numeralFrom z b n ds := by
  induction cs generalizing ds m n with
  | nil =>
    obtain rfl := List.length_eq_zero_iff.1 hlen.symm
    exact h
  | cons c cs ih =>
    cases ds with
    | nil => simp at hlen
    | cons d ds =>
      have hc := hcs c List.mem_cons_self
      have hd := hds d List.mem_cons_self
      have hstep : b * m + b ≤ b * n := Nat.mul_le_mul_left b h
      refine ih hcs.tail hds.tail (by simpa using hlen) ?_
      change b * m + (c.toNat - z) < b * n + (d.toNat - z)
      omega

theorem compare_numeralFrom (hcs : Digits z b k cs) (hds : Digits z b k ds)
    (hlen : cs.length = ds.length) (n : Nat) :
    compare (numeralFrom z b n cs) (numeralFrom z b n ds) = compare cs ds := by
  induction cs generalizing ds n with
  | nil =>
    obtain rfl := List.length_eq_zero_iff.1 hlen.symm
    exact Nat.compare_eq_eq.2 rfl
  | cons c cs ih =>
    cases ds with
    | nil => simp at hlen
    | cons d ds =>
      have hc := hcs c List.mem_cons_self
      have hd := hds d List.mem_cons_self
      have hlen' : cs.length = ds.length := by simpa using hlen
      rw [List.compare_eq_compareLex, List.compareLex_cons_cons, ← List.compare_eq_compareLex,
        ← compare_toNat]
      rcases Nat.lt_trichotomy c.toNat d.toNat with hlt | heq | hgt
      · have hstep : b * n + (c.toNat - z) < b * n + (d.toNat - z) := by omega
        rw [Nat.compare_eq_lt.2 hlt]
        exact Nat.compare_eq_lt.2 (numeralFrom_lt hcs.tail hds.tail hlen' hstep)
      · obtain rfl := Char.toNat_inj.1 heq
        rw [Nat.compare_eq_eq.2 rfl]
        exact ih hcs.tail hds.tail hlen' _
      · have hstep : b * n + (d.toNat - z) < b * n + (c.toNat - z) := by omega
        rw [Nat.compare_eq_gt.2 hgt]
        exact Nat.compare_eq_gt.2 (numeralFrom_lt hds.tail hcs.tail hlen'.symm hstep)

theorem numeralFrom_append (n : Nat) (cs ds : List Char) :
    numeralFrom z b n (cs ++ ds) = numeralFrom z b (numeralFrom z b n cs) ds := List.foldl_append

theorem le_numeralFrom (hb : 0 < b) (n : Nat) (cs : List Char) : n ≤ numeralFrom z b n cs := by
  induction cs generalizing n with
  | nil => exact Nat.le_refl n
  | cons c cs ih =>
    have hstep : n ≤ b * n := Nat.le_mul_of_pos_left n hb
    have hrest := ih (b * n + (c.toNat - z))
    change n ≤ numeralFrom z b (b * n + (c.toNat - z)) cs
    omega

/-- A longer run stands for a larger number: it is a run of the same length with some number in front. -/
theorem numeralFrom_lt_of_length (hb : 0 < b) (hcs : IsNumeral z b k cs) (hds : IsNumeral z b k ds)
    (hlen : cs.length < ds.length) : numeralFrom z b 0 cs < numeralFrom z b 0 ds := by
  cases ds with
  | nil => simp at hlen
  | cons d ds =>
    obtain ⟨front, back, rfl, hback⟩ : ∃ front back, ds = front ++ back ∧ back.length = cs.length := by
      refine ⟨ds.take (ds.length - cs.length), ds.drop (ds.length - cs.length),
        (List.take_append_drop _ _).symm, ?_⟩
      simp only [List.length_cons] at hlen
      simp only [List.length_drop]
      omega
    have hlead := hds.lead d rfl
    have hfront := le_numeralFrom hb (b * 0 + (d.toNat - z)) front (z := z)
    change _ < numeralFrom z b (b * 0 + (d.toNat - z)) (front ++ back)
    rw [numeralFrom_append]
    have hdigits : Digits z b k back := fun c hc => hds.digits.tail c (List.mem_append_right front hc)
    exact numeralFrom_lt hcs.digits hdigits hback.symm (by omega)

/-- Runs compare by length and then as texts exactly as the numbers do that they stand for. -/
theorem compareRuns_eq (hb : 0 < b) (hcs : IsNumeral z b k cs) (hds : IsNumeral z b k ds) :
    compareRuns cs ds = compare (numeralFrom z b 0 cs) (numeralFrom z b 0 ds) := by
  unfold compareRuns
  rcases Nat.lt_trichotomy cs.length ds.length with hlt | heq | hgt
  · rw [Nat.compare_eq_lt.2 hlt, Nat.compare_eq_lt.2 (numeralFrom_lt_of_length hb hcs hds hlt)]
    rfl
  · rw [Nat.compare_eq_eq.2 heq, compare_numeralFrom hcs.digits hds.digits heq]
    rfl
  · rw [Nat.compare_eq_gt.2 hgt, Nat.compare_eq_gt.2 (numeralFrom_lt_of_length hb hds hcs hgt)]
    rfl

end numerals

section names

theorem isNumeral_letters {cs : List Char} (h : ∀ c ∈ cs, c.isAlpha = true) :
    IsNumeral 64 26 1 (cs.map Char.toUpper) := by
  have digits : Digits 64 26 1 (cs.map Char.toUpper) := by
    intro c hc
    obtain ⟨d, hd, rfl⟩ := List.mem_map.1 hc
    have hcode := (isAlpha_iff d).1 (h d hd)
    by_cases hlower : 97 ≤ d.toNat ∧ d.toNat ≤ 122
    · rw [toNat_toUpper hlower]
      omega
    · rw [toUpper_eq_self hlower]
      omega
  refine ⟨digits, fun c hc => ?_⟩
  have hcode := digits c (List.mem_of_mem_head? hc)
  omega

theorem isNumeral_digits {cs : List Char} (h : ∀ c ∈ cs, c.isDigit = true) :
    IsNumeral 48 10 0 (cs.dropWhile (· == '0')) := by
  have digits : Digits 48 10 0 (cs.dropWhile (· == '0')) := by
    intro c hc
    have hcode := (isDigit_iff c).1 (h c ((List.dropWhile_sublist _).subset hc))
    omega
  refine ⟨digits, fun c hc => ?_⟩
  have hcode := digits c (List.mem_of_mem_head? hc)
  have hne : c ≠ '0' := by
    rintro rfl
    have hstop := List.head?_dropWhile_not (· == '0') cs
    rw [hc] at hstop
    cases hstop
  have hzero : c.toNat ≠ 48 := fun he => hne (Char.toNat_inj.1 he)
  omega

theorem letterNumber_eq {c : Char} (h : c.isAlpha = true) :
    letterNumber c = c.toUpper.toNat - 64 := by
  have hcode := (isAlpha_iff c).1 h
  have hupper : 'A'.toNat = 65 := rfl
  have hlower : 'a'.toNat = 97 := rfl
  unfold letterNumber
  by_cases hu : c.isUpper = true
  · have hu' := (isUpper_iff c).1 hu
    rw [if_pos hu, toUpper_eq_self (by omega)]
    omega
  · have hu' := mt (isUpper_iff c).2 hu
    rw [if_neg hu, toNat_toUpper (by omega)]
    omega

theorem column_eq (name : String) : column name =
    numeralFrom 64 26 0 ((name.toList.takeWhile Char.isAlpha).map Char.toUpper) := by
  have h : ∀ (cs : List Char) (n : Nat), (∀ c ∈ cs, c.isAlpha = true) →
      cs.foldl (fun n c => 26 * n + letterNumber c) n = numeralFrom 64 26 n (cs.map Char.toUpper) := by
    intro cs
    induction cs with
    | nil => exact fun n _ => rfl
    | cons c cs ih =>
      intro n hcs
      rw [List.foldl_cons, ih _ fun d hd => hcs d (List.mem_cons_of_mem c hd),
        letterNumber_eq (hcs c List.mem_cons_self)]
      rfl
  exact h _ 0 fun c hc => List.mem_takeWhile_imp hc

theorem row_eq (name : String) : row name =
    numeralFrom 48 10 0 ((name.toList.dropWhile Char.isAlpha).dropWhile (· == '0')) := by
  unfold row
  generalize name.toList.dropWhile Char.isAlpha = cs
  have hzeros : cs.takeWhile (· == '0') = List.replicate (cs.takeWhile (· == '0')).length '0' :=
    List.eq_replicate_of_mem fun c hc => eq_of_beq (List.mem_takeWhile_imp (p := (· == '0')) hc)
  calc
    Number.digitsValue cs =
        Number.digitsValue (cs.takeWhile (· == '0') ++ cs.dropWhile (· == '0')) := by
      rw [List.takeWhile_append_dropWhile]
    _ = Number.digitsValue (cs.dropWhile (· == '0')) := by
      rw [Number.digitsValue_append, hzeros, Number.digitsValue_zeros, Nat.mul_zero, Nat.zero_add]
    _ = _ := Nat.ofDigitChars_eq_foldl

theorem nameKey?_eq {name : String} (h : isCellName name = true) : nameKey? name =
    some ((name.toList.takeWhile Char.isAlpha).map Char.toUpper,
      (name.toList.dropWhile Char.isAlpha).dropWhile (· == '0')) := by
  obtain ⟨parts, hparts⟩ := Option.isSome_iff_exists.1 h
  have hsplit := hparts
  unfold splitName? at hparts
  dsimp only at hparts
  split at hparts
  · obtain rfl := Option.some.inj hparts
    unfold nameKey?
    rw [hsplit]
    rfl
  · cases hparts

theorem isDigit_of_isCellName {name : String} (h : isCellName name = true) :
    ∀ c ∈ name.toList.dropWhile Char.isAlpha, c.isDigit = true := by
  unfold isCellName splitName? at h
  dsimp only at h
  split at h
  · rename_i hparts
    exact List.all_eq_true.1 hparts.2.2
  · cases h

/-- On cell names, sheet order is the order of the places. -/
theorem compareNames_eq_places {a b : String} (ha : isCellName a = true) (hb : isCellName b = true) :
    compareNames a b = comparePlaces a b := by
  unfold compareNames comparePlaces
  rw [nameKey?_eq ha, nameKey?_eq hb]
  dsimp only
  rw [compareRuns_eq (by decide) (isNumeral_letters fun c hc => List.mem_takeWhile_imp hc)
      (isNumeral_letters fun c hc => List.mem_takeWhile_imp hc),
    compareRuns_eq (by decide) (isNumeral_digits (isDigit_of_isCellName ha))
      (isNumeral_digits (isDigit_of_isCellName hb)),
    ← column_eq, ← column_eq, ← row_eq, ← row_eq, compare_codes]

/-- Rows are numbers of any size, without their leading zeros. -/
example : column "aB0040" = 28 ∧ row "aB0040" = 40 := by decide

end names

end Worksheet.Cell
