import Worksheet.Number.Numeral
import Worksheet.Proofs.Number.Bits
import Worksheet.Proofs.Number.Rounding
import Worksheet.Proofs.Text.Ascii
import Worksheet.Proofs.Text.Runs

set_option autoImplicit false

/-!
# Numbers read back

A finite number is written as digits, with a point and more digits behind it unless it is whole, and is
read from them bit for bit.
-/
namespace Worksheet.Number
open Worksheet.Text

/-- Digits, and the digits behind a point if there are any. -/
structure Plain where
  whole : List Char
  fraction : List Char
  whole_ne_nil : whole ≠ []
  isDigit : ∀ c ∈ whole ++ fraction, c.isDigit = true

namespace Plain

def chars (p : Plain) : List Char :=
  p.whole ++ if p.fraction = [] then [] else '.' :: p.fraction

def decimal (p : Plain) : Decimal := ⟨digitsValue (p.whole ++ p.fraction), -p.fraction.length⟩

theorem isDigit_whole (p : Plain) : ∀ c ∈ p.whole, c.isDigit = true :=
  fun c hc => p.isDigit c (List.mem_append_left _ hc)

theorem isDigit_fraction (p : Plain) : ∀ c ∈ p.fraction, c.isDigit = true :=
  fun c hc => p.isDigit c (List.mem_append_right _ hc)

theorem mem_chars {p : Plain} {c : Char} (h : c ∈ p.chars) : c.isDigit = true ∨ c = '.' := by
  unfold chars at h
  rcases List.mem_append.1 h with hw | hf
  · exact .inl (p.isDigit_whole c hw)
  · split at hf
    · cases hf
    · rcases List.mem_cons.1 hf with rfl | hf
      · exact .inr rfl
      · exact .inl (p.isDigit_fraction c hf)

theorem exists_cons (p : Plain) : ∃ c cs, p.chars = c :: cs ∧ c.isDigit = true := by
  unfold chars
  cases hw : p.whole with
  | nil => exact absurd hw p.whole_ne_nil
  | cons c cs => exact ⟨c, _, rfl, p.isDigit_whole c (by rw [hw]; exact List.mem_cons_self)⟩

theorem numeral_chars (p : Plain) : numeral p.chars = some p.decimal := by
  have hne : p.whole ++ p.fraction ≠ [] := fun h => p.whole_ne_nil (List.append_eq_nil_iff.1 h).1
  unfold numeral chars decimal
  by_cases hf : p.fraction = []
  · have hall := p.isDigit_whole
    rw [hf, List.append_nil] at hne
    simp only [hf, ↓reduceIte, List.takeWhile_eq_self_iff.2 hall, List.dropWhile_eq_nil_iff.2 hall,
      List.append_nil, hne,
      exponentPart, Option.map_some, List.length_nil, Int.ofNat_zero, Int.neg_zero, Int.sub_zero]
  · have hall := p.isDigit_fraction
    have hpoint : ∀ c, ('.' :: p.fraction).head? = some c → c.isDigit = false := by
      intro c hc
      obtain rfl := Option.some.inj hc
      rfl
    have htake := takeWhile_run p.isDigit_whole hpoint
    have hdrop := dropWhile_run p.isDigit_whole hpoint
    simp only [hf, ↓reduceIte, htake, hdrop, List.takeWhile_eq_self_iff.2 hall,
      List.dropWhile_eq_nil_iff.2 hall, hne,
      exponentPart, Option.map_some, Int.zero_sub]

end Plain

theorem Decimal.roundsTo_congr {d d' : Decimal} (h : ∀ k, d.compareHalves k = d'.compareHalves k)
    (c : Nat) : d.roundsTo c = d'.roundsTo c := by
  unfold Decimal.roundsTo Decimal.reaches
  simp only [h]

theorem isDigit_toDigits (n : Nat) : ∀ c ∈ Nat.toDigits 10 n, c.isDigit = true :=
  fun _ hc => Nat.isDigit_of_mem_toDigits (by decide) (by decide) hc

theorem isDigit_zeros (n : Nat) : ∀ c ∈ List.replicate n '0', c.isDigit = true := by
  intro c hc
  rw [List.eq_of_mem_replicate hc]
  rfl

theorem digitsValue_toDigits (n : Nat) : digitsValue (Nat.toDigits 10 n) = n :=
  Nat.ofDigitChars_ten_toDigits

theorem digitsValue_append (cs ds : List Char) :
    digitsValue (cs ++ ds) = 10 ^ ds.length * digitsValue cs + digitsValue ds := by
  unfold digitsValue
  rw [Nat.ofDigitChars_append, Nat.ofDigitChars_eq_ofDigitChars_zero]

theorem digitsValue_zeros (n : Nat) : digitsValue (List.replicate n '0') = 0 := by
  unfold digitsValue
  rw [Nat.ofDigitChars_replicate_zero, Nat.mul_zero]

section positional

theorem Plain.decimal_eq {p : Plain} {d : Decimal} (hplaces : (-d.exponent).toNat ≠ 0)
    (hdigits : digitsValue (p.whole ++ p.fraction) = d.digits)
    (hlength : p.fraction.length = (-d.exponent).toNat) : p.decimal = d := by
  unfold Plain.decimal
  rw [hdigits, hlength]
  cases d
  congr 1
  dsimp only at hplaces ⊢
  omega

variable {d : Decimal} {ds : List Char} (hall : ∀ c ∈ ds, c.isDigit = true)
  (hvalue : digitsValue ds = d.digits)
include hall hvalue

theorem exists_plain_whole (hne : ds ≠ []) (hplaces : (-d.exponent).toNat = 0) :
    ∃ p : Plain, p.chars = ds ++ List.replicate d.exponent.toNat '0' ∧
      ∀ c, p.decimal.roundsTo c = d.roundsTo c := by
  have hwhole : ds ++ List.replicate d.exponent.toNat '0' ≠ [] := by simp [hne]
  have hdigit := List.forall_mem_append.2 ⟨hall, isDigit_zeros d.exponent.toNat⟩
  rw [← List.append_nil (ds ++ _)] at hdigit
  refine ⟨⟨_, [], hwhole, hdigit⟩, ?_, Decimal.roundsTo_congr fun k => ?_⟩
  · unfold Plain.chars
    rw [if_pos rfl, List.append_nil]
  · have hscaled : (⟨_, [], hwhole, hdigit⟩ : Plain).decimal =
        ⟨d.digits * 10 ^ d.exponent.toNat, 0⟩ := by
      unfold Plain.decimal
      dsimp only
      rw [List.append_nil, digitsValue_append, digitsValue_zeros, hvalue, List.length_replicate,
        Nat.add_zero, Nat.mul_comm]
      rfl
    rw [Decimal.compareHalves_eq _ _ rfl, Decimal.compareHalves_eq _ _ rfl, hscaled, hplaces]
    simp only [Int.neg_zero, Int.toNat_zero, Nat.pow_zero, Nat.mul_one]

theorem exists_plain_split (hplaces : (-d.exponent).toNat ≠ 0)
    (hshort : (-d.exponent).toNat < ds.length) :
    ∃ p : Plain, p.chars = ds.take (ds.length - (-d.exponent).toNat) ++
      '.' :: ds.drop (ds.length - (-d.exponent).toNat) ∧ p.decimal = d := by
  have hsplit := List.take_append_drop (ds.length - (-d.exponent).toNat) ds
  have hlength : (ds.drop (ds.length - (-d.exponent).toNat)).length = (-d.exponent).toNat := by
    rw [List.length_drop]
    omega
  have hwhole : ds.take (ds.length - (-d.exponent).toNat) ≠ [] := by
    intro h
    have hsize := congrArg List.length h
    rw [List.length_take, List.length_nil] at hsize
    omega
  refine ⟨⟨_, _, hwhole, hsplit.symm ▸ hall⟩, ?_, ?_⟩
  · unfold Plain.chars
    rw [if_neg]
    intro h
    dsimp only at h
    rw [h] at hlength
    exact hplaces hlength.symm
  · exact Plain.decimal_eq hplaces ((congrArg digitsValue hsplit).trans hvalue) hlength

theorem exists_plain_padded (hne : ds ≠ []) (hplaces : (-d.exponent).toNat ≠ 0)
    (hlong : ¬(-d.exponent).toNat < ds.length) :
    ∃ p : Plain, p.chars =
      '0' :: '.' :: (List.replicate ((-d.exponent).toNat - ds.length) '0' ++ ds) ∧
      p.decimal = d := by
  have hdigit := List.forall_mem_append.2 ⟨isDigit_zeros 1,
    List.forall_mem_append.2 ⟨isDigit_zeros ((-d.exponent).toNat - ds.length), hall⟩⟩
  refine ⟨⟨['0'], _, List.cons_ne_nil _ _, hdigit⟩, ?_, Plain.decimal_eq hplaces ?_ ?_⟩
  · unfold Plain.chars
    rw [if_neg (by simp [hne])]
    rfl
  · have hzero : digitsValue ['0'] = 0 := rfl
    dsimp only
    rw [← List.append_assoc, digitsValue_append, digitsValue_append, digitsValue_zeros, hzero,
      hvalue, Nat.mul_zero, Nat.zero_add, Nat.mul_zero, Nat.zero_add]
  · dsimp only
    rw [List.length_append, List.length_replicate]
    omega

end positional

theorem Decimal.exists_plain (d : Decimal) : ∃ p : Plain, p.chars = d.positional ∧
    ∀ c, p.decimal.roundsTo c = d.roundsTo c := by
  have hall := isDigit_toDigits d.digits
  have hvalue := digitsValue_toDigits d.digits
  have hne : Nat.toDigits 10 d.digits ≠ [] := Nat.toDigits_ne_nil
  unfold Decimal.positional
  dsimp only
  split
  · rename_i hplaces
    exact exists_plain_whole hall hvalue hne hplaces
  · rename_i hplaces
    split
    · rename_i hshort
      obtain ⟨p, hp, hd⟩ := exists_plain_split hall hvalue hplaces hshort
      exact ⟨p, hp, fun c => by rw [hd]⟩
    · rename_i hlong
      obtain ⟨p, hp, hd⟩ := exists_plain_padded hall hvalue hne hplaces hlong
      exact ⟨p, hp, fun c => by rw [hd]⟩

/-- A finite code is written in digits that round to it. -/
theorem magnitude_plain {c : Nat} (h : c < infinity) :
    ∃ p : Plain, p.chars = magnitude c ∧ p.decimal.roundsTo c = true := by
  obtain ⟨p, hp, hrounds⟩ := (shortest c).exists_plain
  refine ⟨p, ?_, ?_⟩
  · unfold magnitude
    rw [if_neg (by omega), hp]
  · rw [hrounds, shortest_roundsTo]

theorem unsigned_magnitude {c : Nat} (h : c < infinity) : unsigned (magnitude c) = some c := by
  obtain ⟨p, hp, hrounds⟩ := magnitude_plain h
  unfold unsigned
  rw [← hp, p.numeral_chars]
  dsimp only
  rw [p.decimal.nearest_eq hrounds h]

theorem read_of_isDigit {c : Char} (h : c.isDigit = true) (cs : List Char) :
    read (c :: cs) = (unsigned (c :: cs)).map (ofCode false) := by
  unfold read
  split
  · rename_i heq
    obtain rfl := (List.cons.inj heq).1
    cases h
  · rename_i heq
    obtain rfl := (List.cons.inj heq).1
    cases h
  · rfl

theorem text_eq {x : Float} (h : isFinite x = true) : text x =
    if isNegative x then '-' :: magnitude (code x) else magnitude (code x) := by
  have hfinite := of_decide_eq_true h
  unfold text
  rw [if_neg (by omega)]

theorem readFinite_text {x : Float} (h : isFinite x = true) : readFinite (text x) = some x := by
  have hfinite := of_decide_eq_true h
  have hmagnitude := unsigned_magnitude hfinite
  have hcode := ofCode_code x
  have hread : read (text x) = some x := by
    rw [text_eq h]
    by_cases hneg : isNegative x = true
    · rw [if_pos hneg]
      rw [hneg] at hcode
      change (unsigned (magnitude (code x))).map (ofCode true) = some x
      rw [hmagnitude, Option.map_some, hcode]
    · rw [if_neg hneg]
      rw [Bool.not_eq_true] at hneg
      rw [hneg] at hcode
      obtain ⟨p, hp, -⟩ := magnitude_plain hfinite
      obtain ⟨c, cs, hcs, hc⟩ := p.exists_cons
      rw [← hp, hcs, read_of_isDigit hc, ← hcs, hp, hmagnitude, Option.map_some, hcode]
  unfold readFinite
  rw [hread, Option.filter_some, if_pos h]

theorem unsigned_lt {cs : List Char} {c : Nat} (h : unsigned cs = some c) : c < signBit := by
  unfold unsigned at h
  dsimp only at h
  split at h
  · rename_i d hd
    obtain rfl := Option.some.inj h
    exact d.nearest_lt
  split at h
  · obtain rfl := Option.some.inj h
    decide
  split at h
  · obtain rfl := Option.some.inj h
    decide
  · cases h

theorem isFinite_of_readFinite {cs : List Char} {x : Float} (h : readFinite cs = some x) :
    isFinite x = true :=
  (Option.filter_eq_some_iff.1 h).2

theorem isNegative_of_readFinite {cs : List Char} {x : Float} (h : readFinite cs = some x)
    (hsign : cs.head? ≠ some '-') : isNegative x = false := by
  have hfinite := isFinite_of_readFinite h
  have hread : read cs = some x := (Option.filter_eq_some_iff.1 h).1
  have hunsigned : ∃ ds, (unsigned ds).map (ofCode false) = some x := by
    unfold read at hread
    split at hread
    · exact absurd rfl hsign
    · exact ⟨_, hread⟩
    · exact ⟨_, hread⟩
  obtain ⟨ds, hds⟩ := hunsigned
  obtain ⟨c, hc, rfl⟩ := Option.map_eq_some_iff.1 hds
  exact isNegative_ofCode (unsigned_lt hc) hfinite

theorem exists_plain_text {x : Float} (h : isFinite x = true) (hsign : isNegative x = false) :
    ∃ p : Plain, p.chars = text x := by
  obtain ⟨p, hp, -⟩ := magnitude_plain (of_decide_eq_true h)
  refine ⟨p, ?_⟩
  rw [text_eq h, hsign, hp]
  rfl

theorem mem_text {x : Float} (h : isFinite x = true) {c : Char} (hc : c ∈ text x) :
    c.isDigit = true ∨ c = '.' ∨ c = '-' := by
  obtain ⟨p, hp, -⟩ := magnitude_plain (of_decide_eq_true h)
  rw [text_eq h, ← hp] at hc
  split at hc
  · rcases List.mem_cons.1 hc with rfl | hc
    · exact .inr (.inr rfl)
    · exact (Plain.mem_chars hc).imp id .inl
  · exact (Plain.mem_chars hc).imp id .inl

theorem trimList_text {x : Float} (h : isFinite x = true) : trimList (text x) = text x := by
  refine trimList_of_forall fun c hc => ?_
  rcases mem_text h hc with hdigit | rfl | rfl
  · exact isBlank_of_isDigit hdigit
  · rfl
  · rfl

end Worksheet.Number
