import Mathlib.Algebra.Group.Nat.Defs
import Worksheet.Number.Shortest

set_option autoImplicit false

/-!
# Rounding of decimals

The values of the codes increase, so a decimal reaches a first run of codes and no others. The nearest
code is the last one reached, and the shortest decimal of a code rounds to that code.
-/
namespace Worksheet.Number

section weights

theorem weight_lt_succ (c : Nat) : weight c < weight (c + 1) := by
  have hpos : 0 < binade := by decide
  have hsplit := Nat.div_add_mod c binade
  have hmod := Nat.mod_lt c hpos
  by_cases hlast : c % binade + 1 = binade
  · have hnext : c + 1 = binade * (c / binade + 1) := by
      rw [Nat.mul_succ]
      omega
    have hdiv : (c + 1) / binade = c / binade + 1 := by
      rw [hnext, Nat.mul_div_cancel_left _ hpos]
    have hrem : (c + 1) % binade = 0 := by
      rw [hnext, Nat.mul_mod_right]
    unfold weight
    rw [hdiv, hrem, if_neg (Nat.succ_ne_zero _), Nat.add_sub_cancel, Nat.add_zero]
    by_cases hq : c / binade = 0
    · rw [if_pos hq, hq]
      change c % binade < binade * 1
      omega
    · rw [if_neg hq]
      obtain ⟨q, hq⟩ : ∃ q, c / binade = q + 1 := Nat.exists_eq_succ_of_ne_zero hq
      have hpow : 0 < Nat.pow 2 q := Nat.pow_pos (by decide)
      have hsucc : Nat.pow 2 (q + 1) = 2 * Nat.pow 2 q := Nat.pow_succ'
      rw [hq, Nat.add_sub_cancel, hsucc, ← Nat.mul_assoc]
      exact Nat.mul_lt_mul_of_pos_right (by omega) hpow
  · have hsum : c + 1 = binade * (c / binade) + (c % binade + 1) := by omega
    have hfits : c % binade + 1 < binade := by omega
    have hdiv : (c + 1) / binade = c / binade := by
      rw [hsum, Nat.mul_add_div hpos, Nat.div_eq_of_lt hfits, Nat.add_zero]
    have hrem : (c + 1) % binade = c % binade + 1 := by
      rw [hsum, Nat.mul_add_mod, Nat.mod_eq_of_lt hfits]
    unfold weight
    rw [hdiv, hrem]
    by_cases hq : c / binade = 0
    · rw [if_pos hq, if_pos hq]
      omega
    · rw [if_neg hq, if_neg hq]
      exact Nat.mul_lt_mul_of_pos_right (by omega) (Nat.pow_pos (by decide))

theorem weight_strictMono {a b : Nat} (h : a < b) : weight a < weight b := by
  induction b with
  | zero => omega
  | succ b ih =>
    have hstep := weight_lt_succ b
    rcases Nat.lt_succ_iff_lt_or_eq.1 h with hlt | rfl
    · exact Nat.lt_trans (ih hlt) hstep
    · exact hstep

theorem weight_eq_zero {c : Nat} (h : weight c = 0) : c = 0 := by
  rcases Nat.eq_zero_or_pos c with hc | hc
  · exact hc
  · have hpos := weight_strictMono hc
    omega

theorem weight_lt {c q : Nat} (h : c / binade ≤ q + 1) : weight c < 2 ^ 53 * 2 ^ q := by
  have hmod : c % binade < binade := Nat.mod_lt c (by decide)
  have hbinade : binade + binade = 2 ^ 53 := by decide
  unfold weight
  by_cases hq : c / binade = 0
  · rw [if_pos hq]
    have hle : 2 ^ 53 * 1 ≤ 2 ^ 53 * 2 ^ q := Nat.mul_le_mul_left _ (Nat.pow_pos (by decide))
    omega
  · rw [if_neg hq]
    calc
      (binade + c % binade) * 2 ^ (c / binade - 1) < 2 ^ 53 * 2 ^ (c / binade - 1) :=
        Nat.mul_lt_mul_of_pos_right (by omega) (Nat.pow_pos (by decide))
      _ ≤ 2 ^ 53 * 2 ^ q :=
        Nat.mul_le_mul_left _ (Nat.pow_le_pow_right (by decide) (by omega))

/-- The lower end of the interval of code `c + 1`, in units of 2^-1075. -/
def middle (c : Nat) : Nat := weight c + weight (c + 1)

theorem middle_lt_succ (c : Nat) : middle c < middle (c + 1) := by
  have h := weight_lt_succ c
  have h' := weight_lt_succ (c + 1)
  unfold middle
  omega

end weights

section reaching

theorem Decimal.compareHalves_eq (d : Decimal) (h : Nat) {k : Nat} (hk : k = 1075) :
    d.compareHalves h = compare (d.digits * 10 ^ d.exponent.toNat * 2 ^ k)
      (h * 10 ^ (-d.exponent).toNat) := by
  unfold Decimal.compareHalves
  rw [← hk]
  rfl

theorem Decimal.reaches_succ (d : Decimal) (c : Nat) :
    d.reaches (c + 1) = match d.compareHalves (middle c) with
      | .gt => true
      | .eq => (c + 1) % 2 == 0
      | .lt => false := by
  have hne : (c + 1 == 0) = false := rfl
  have hmiddle : weight c + weight (c + 1) = middle c := rfl
  cases hd : d.compareHalves (middle c) with
  | lt => simp only [Decimal.reaches, hne, Bool.false_or, Nat.add_sub_cancel, hmiddle, hd]
  | eq => simp only [Decimal.reaches, hne, Bool.false_or, Nat.add_sub_cancel, hmiddle, hd]
  | gt => simp only [Decimal.reaches, hne, Bool.false_or, Nat.add_sub_cancel, hmiddle, hd]

theorem Decimal.compareHalves_mono {d : Decimal} {h k : Nat} (hk : h < k)
    (hd : d.compareHalves k ≠ .lt) : d.compareHalves h = .gt := by
  unfold Decimal.compareHalves at *
  have hle := Nat.not_lt.1 (mt Nat.compare_eq_lt.2 hd)
  have hpow : 0 < Nat.pow 10 (-d.exponent).toNat := Nat.pow_pos (by decide)
  have hlt : h * Nat.pow 10 (-d.exponent).toNat < k * Nat.pow 10 (-d.exponent).toNat :=
    Nat.mul_lt_mul_of_pos_right hk hpow
  exact Nat.compare_eq_gt.2 (Nat.lt_of_lt_of_le hlt hle)

theorem Decimal.reaches_of_compareHalves {d : Decimal} {c : Nat}
    (h : d.compareHalves (middle c) = .gt) : d.reaches (c + 1) = true := by
  rw [d.reaches_succ, h]

theorem Decimal.compareHalves_of_reaches {d : Decimal} {c : Nat} (h : d.reaches (c + 1) = true) :
    d.compareHalves (middle c) ≠ .lt := by
  intro hlt
  rw [d.reaches_succ, hlt] at h
  cases h

theorem Decimal.reaches_of_succ {d : Decimal} {c : Nat} (h : d.reaches (c + 1) = true) :
    d.reaches c = true := by
  cases c with
  | zero => rfl
  | succ c =>
    have hmid := compareHalves_of_reaches h
    exact reaches_of_compareHalves (compareHalves_mono (middle_lt_succ c) hmid)

theorem Decimal.reaches_of_le {d : Decimal} {a b : Nat} (hab : a ≤ b) (h : d.reaches b = true) :
    d.reaches a = true := by
  induction hab with
  | refl => exact h
  | step _ ih => exact ih (reaches_of_succ h)

end reaching

section bisection

/-- Bisection finds the last number of the first run of a predicate. -/
theorem bisect_eq {p : Nat → Bool} {c : Nat} (hc : ∀ b, p b = true ↔ b ≤ c) (n lo : Nat)
    (hlo : lo ≤ c) (hhi : c < lo + 2 ^ n) : bisect p n lo = c := by
  induction n generalizing lo with
  | zero =>
    unfold bisect
    omega
  | succ n ih =>
    have hpow : 2 ^ (n + 1) = 2 ^ n + 2 ^ n := by
      rw [Nat.pow_succ]
      omega
    unfold bisect
    change bisect p n (if p (lo + 2 ^ n) then lo + 2 ^ n else lo) = c
    by_cases hp : p (lo + 2 ^ n) = true
    · rw [if_pos hp]
      have hle := (hc _).1 hp
      exact ih _ hle (by omega)
    · rw [if_neg hp]
      have hlt := mt (hc _).2 hp
      exact ih _ hlo (by omega)

theorem bisect_lt (p : Nat → Bool) (n lo : Nat) : bisect p n lo < lo + 2 ^ n := by
  induction n generalizing lo with
  | zero => exact Nat.lt_succ_self lo
  | succ n ih =>
    have hpow : 2 ^ (n + 1) = 2 ^ n + 2 ^ n := by
      rw [Nat.pow_succ]
      omega
    unfold bisect
    change bisect p n (if p (lo + 2 ^ n) then lo + 2 ^ n else lo) < lo + 2 ^ (n + 1)
    by_cases hp : p (lo + 2 ^ n) = true
    · have hrest := ih (lo + 2 ^ n)
      rw [if_pos hp]
      omega
    · have hrest := ih lo
      have hpos : 0 < 2 ^ n := Nat.pow_pos (by decide)
      rw [if_neg hp]
      omega

theorem Decimal.nearest_lt (d : Decimal) : d.nearest < signBit := by
  unfold Decimal.nearest
  split
  · decide
  split
  · decide
  · exact bisect_lt _ 63 0

theorem Decimal.roundsTo_iff (d : Decimal) (c : Nat) :
    d.roundsTo c = true ↔ d.reaches c = true ∧ d.reaches (c + 1) = false := by
  unfold Decimal.roundsTo
  rw [Bool.and_eq_true, Bool.not_eq_true']

theorem Decimal.reaches_iff {d : Decimal} {c : Nat} (h : d.roundsTo c = true) (b : Nat) :
    d.reaches b = true ↔ b ≤ c := by
  obtain ⟨hc, hnext⟩ := (d.roundsTo_iff c).1 h
  constructor
  · intro hb
    by_cases hle : b ≤ c
    · exact hle
    · have hreach := reaches_of_le (Nat.lt_of_not_le hle) hb
      rw [hnext] at hreach
      cases hreach
  · intro hle
    exact reaches_of_le hle hc

theorem Decimal.compareHalves_of_tiny {d : Decimal}
    (h : d.digits = 0 ∨ (d.digits.log2 + 1 : Int) + 3 * d.exponent < -1080) :
    d.compareHalves (middle 0) = .lt := by
  have hmiddle : middle 0 = 1 := by decide
  -- with a variable exponent no tactic writes out the power
  obtain ⟨k, hk⟩ : ∃ k, k = 1075 := ⟨_, rfl⟩
  rw [d.compareHalves_eq _ hk, hmiddle, Nat.one_mul]
  refine Nat.compare_eq_lt.2 ?_
  rcases h with hzero | hsmall
  · rw [hzero, Nat.zero_mul, Nat.zero_mul]
    exact Nat.pow_pos (by decide)
  · have hexp : d.exponent.toNat = 0 := by omega
    have hbits : d.digits.log2 + 1 + k ≤ 3 * (-d.exponent).toNat := by omega
    have hdigits : d.digits < 2 ^ (d.digits.log2 + 1) := Nat.lt_log2_self
    rw [hexp, Nat.pow_zero, Nat.mul_one]
    calc
      d.digits * 2 ^ k < 2 ^ (d.digits.log2 + 1) * 2 ^ k :=
        Nat.mul_lt_mul_of_pos_right hdigits (Nat.pow_pos (by decide))
      _ = 2 ^ (d.digits.log2 + 1 + k) := (Nat.pow_add 2 _ _).symm
      _ ≤ 2 ^ (3 * (-d.exponent).toNat) := Nat.pow_le_pow_right (by decide) hbits
      _ ≤ 10 ^ (-d.exponent).toNat := by
        rw [Nat.pow_mul]
        exact Nat.pow_le_pow_left (by decide) _

theorem Decimal.reaches_of_huge {d : Decimal} (hpos : d.digits ≠ 0) (h : 309 < d.exponent) :
    d.reaches infinity = true := by
  obtain ⟨k, hk⟩ : ∃ k, k = 1075 := ⟨_, rfl⟩
  obtain ⟨q, hq⟩ : ∃ q, q = 2046 := ⟨_, rfl⟩
  obtain ⟨m, hm⟩ : ∃ m, m = 5 := ⟨_, rfl⟩
  have hmiddle : middle (infinity - 1) < 2 ^ (q + 54) := by
    have hlow : weight (infinity - 1) < 2 ^ 53 * 2 ^ q := weight_lt (by rw [hq]; decide)
    have hhigh : weight (infinity - 1 + 1) < 2 ^ 53 * 2 ^ q := weight_lt (by rw [hq]; decide)
    have hpow : 2 ^ (q + 54) = 2 ^ 53 * 2 ^ q + 2 ^ 53 * 2 ^ q := by
      rw [Nat.pow_add]
      omega
    unfold middle
    omega
  have hten : 2 ^ (205 * m) ≤ 10 ^ d.exponent.toNat := by
    calc
      2 ^ (205 * m) = (2 ^ 205) ^ m := Nat.pow_mul 2 205 m
      _ ≤ (10 ^ 62) ^ m := Nat.pow_le_pow_left (by decide) m
      _ = 10 ^ (62 * m) := (Nat.pow_mul 10 62 m).symm
      _ ≤ 10 ^ d.exponent.toNat := Nat.pow_le_pow_right (by decide) (by omega)
  have hzero : (-d.exponent).toNat = 0 := by omega
  refine reaches_of_compareHalves (c := infinity - 1) ?_
  rw [d.compareHalves_eq _ hk, hzero, Nat.pow_zero, Nat.mul_one]
  refine Nat.compare_eq_gt.2 ?_
  calc
    middle (infinity - 1) < 2 ^ (q + 54) := hmiddle
    _ ≤ 2 ^ (205 * m + k) := Nat.pow_le_pow_right (by decide) (by omega)
    _ = 2 ^ (205 * m) * 2 ^ k := Nat.pow_add 2 _ _
    _ ≤ d.digits * 10 ^ d.exponent.toNat * 2 ^ k := by
      refine Nat.mul_le_mul_right _ (Nat.le_trans hten ?_)
      exact Nat.le_mul_of_pos_left _ (Nat.pos_of_ne_zero hpos)

theorem Decimal.nearest_eq {d : Decimal} {c : Nat} (h : d.roundsTo c = true) (hc : c < infinity) :
    d.nearest = c := by
  have hreaches := reaches_iff h
  unfold Decimal.nearest
  by_cases htiny : d.digits = 0 ∨ (d.digits.log2 + 1 : Int) + 3 * d.exponent < -1080
  · rw [if_pos htiny]
    have hlt := compareHalves_of_tiny htiny
    have hnot : ¬d.reaches (0 + 1) = true := fun hr => compareHalves_of_reaches hr hlt
    have hle := mt (hreaches (0 + 1)).2 hnot
    omega
  rw [if_neg htiny]
  by_cases hhuge : 309 < d.exponent
  · have hle := (hreaches infinity).1 (reaches_of_huge (fun h0 => htiny (.inl h0)) hhuge)
    omega
  rw [if_neg hhuge]
  refine bisect_eq (fun b => ?_) 63 0 (Nat.zero_le c) ?_
  · rw [Bool.and_eq_true, decide_eq_true_eq, hreaches b]
    omega
  · have hsmall : infinity < 0 + 2 ^ 63 := by decide
    omega

end bisection

section shortest

theorem exact_roundsTo {c : Nat} (hc : 0 < c) : (exact c).roundsTo c = true := by
  obtain ⟨k, hk⟩ : ∃ k, k = 1074 := ⟨_, rfl⟩
  have hdigits : (exact c).digits = weight c * 5 ^ k := by
    unfold exact
    rw [← hk]
    rfl
  have hneg : (-(exact c).exponent).toNat = k := hk.symm
  have hpos : (exact c).exponent.toNat = 0 := rfl
  have hcompare (h : Nat) : (exact c).compareHalves h =
      compare (2 * weight c * 10 ^ k) (h * 10 ^ k) := by
    have hten : 10 ^ k = 5 ^ k * 2 ^ k := Nat.mul_pow 5 2 k
    have hvalue : weight c * 5 ^ k * 2 ^ (k + 1) = 2 * weight c * (5 ^ k * 2 ^ k) := by
      rw [Nat.pow_succ, Nat.mul_comm (2 ^ k) 2, Nat.mul_comm 2 (weight c), Nat.mul_assoc,
        Nat.mul_assoc, Nat.mul_left_comm (5 ^ k) 2]
    rw [(exact c).compareHalves_eq h (k := k + 1) (by omega), hneg, hpos, hdigits, Nat.pow_zero,
      Nat.mul_one, hvalue, hten]
  have hten : 0 < 10 ^ k := Nat.pow_pos (by decide)
  refine ((exact c).roundsTo_iff c).2 ⟨?_, ?_⟩
  · obtain ⟨b, rfl⟩ : ∃ b, c = b + 1 := Nat.exists_eq_succ_of_ne_zero (by omega)
    refine Decimal.reaches_of_compareHalves ?_
    have hlt := weight_lt_succ b
    rw [hcompare]
    refine Nat.compare_eq_gt.2 (Nat.mul_lt_mul_of_pos_right ?_ hten)
    unfold middle
    omega
  · have hlt := weight_lt_succ c
    have hless : (exact c).compareHalves (middle c) = .lt := by
      rw [hcompare]
      refine Nat.compare_eq_lt.2 (Nat.mul_lt_mul_of_pos_right ?_ hten)
      unfold middle
      omega
    rw [Decimal.reaches_succ, hless]

theorem onGrid_roundsTo {c : Nat} {g : Int} {d : Decimal} (h : onGrid c g = some d) :
    d.roundsTo c = true := by
  unfold onGrid at h
  dsimp only at h
  split at h
  · rename_i hlower
    split at h
    · rename_i hupper
      obtain rfl := Option.some.inj h
      exact (Bool.and_eq_true _ _ ▸ hupper).1
    · obtain rfl := Option.some.inj h
      exact hlower
  · split at h
    · rename_i hupper
      obtain rfl := Option.some.inj h
      exact hupper
    · cases h

theorem coarsest_roundsTo {c : Nat} (hc : 0 < c) (n : Nat) (g : Int) :
    (coarsest c n g).roundsTo c = true := by
  induction n generalizing g with
  | zero => exact exact_roundsTo hc
  | succ n ih =>
    unfold coarsest
    split
    · rename_i d hd
      exact onGrid_roundsTo hd
    · exact ih (g - 1)

theorem shortest_roundsTo (c : Nat) : (shortest c).roundsTo c = true := by
  unfold shortest
  by_cases hw : weight c = 0
  · rw [if_pos hw, weight_eq_zero hw]
    have hless := Decimal.compareHalves_of_tiny (d := ⟨0, 0⟩) (.inl rfl)
    refine (Decimal.roundsTo_iff _ _).2 ⟨rfl, ?_⟩
    rw [Decimal.reaches_succ, hless]
  · rw [if_neg hw]
    refine coarsest_roundsTo (Nat.pos_of_ne_zero fun hc => hw ?_) 30 _
    rw [hc]
    rfl

end shortest
end Worksheet.Number
