import Mathlib.Algebra.Group.Nat.Defs
import Worksheet.Number.Code

set_option autoImplicit false

/-!
# Bits of a number

A number is given back by its sign and its code. Packing is undone by unpacking only up to the choice of
one undefined value, and that choice is already made in the bits of a number.
-/
namespace Worksheet.Number
open Float.Model Float.Model.UnpackedFloat

theorem toBitVec_ofBitVec (b : BitVec 1) : (Sign.ofBitVec b).toBitVec = b := by
  revert b
  decide

theorem packComponents_parts (b : BitVec Format.binary64.numBits) :
    packComponents .binary64 (.ofBitVec (unpackSign b)) (unpackExponent b) (unpackMantissa b) = b := by
  unfold packComponents unpackSign unpackExponent unpackMantissa
  rw [toBitVec_ofBitVec]
  ext i hi
  simp only [BitVec.getElem_append, BitVec.extractLsb, BitVec.getElem_cast,
    BitVec.getElem_extractLsb']
  split
  · rw [Nat.zero_add, BitVec.getLsbD_eq_getElem hi]
  · split
    · rw [Nat.add_sub_cancel' (by omega), BitVec.getLsbD_eq_getElem hi]
    · have hindex : 52 + 11 + (i - 52 - 11) = i := by omega
      rw [hindex, BitVec.getLsbD_eq_getElem hi]

theorem toNat_implicit (m : BitVec 52) : (1#1 ++ m).toNat = 2 ^ 52 + m.toNat := by
  rw [BitVec.toNat_append, ← Nat.shiftLeft_add_eq_or_of_lt m.isLt]
  rfl

theorem log2_implicit (m : BitVec 52) : (1#1 ++ m).toNat.log2 = 52 := by
  have hm := m.isLt
  rw [toNat_implicit, Nat.log2_eq_iff (by omega)]
  omega

theorem log2_subnormal {m : BitVec 52} (h : m ≠ 0#52) : m.toNat.log2 < 52 := by
  have hne : m.toNat ≠ 0 := fun h0 => h (BitVec.eq_of_toNat_eq h0)
  exact (Nat.log2_lt hne).2 m.isLt

theorem ofNat_implicit (m : BitVec 52) : BitVec.ofNat 52 (1#1 ++ m).toNat = m := by
  have hm := m.isLt
  apply BitVec.eq_of_toNat_eq
  rw [BitVec.toNat_ofNat, toNat_implicit, Nat.add_mod_left, Nat.mod_eq_of_lt hm]

theorem pack_unpack {b : BitVec Format.binary64.numBits}
    (h : unpackExponent b = -1#_ → unpackMantissa b = 0#_) :
    UnpackedFloat.pack .binary64 (UnpackedFloat.unpack .binary64 b) = b := by
  have hparts := packComponents_parts b
  have hexponent := (unpackExponent b).isLt
  have hbias : Format.binary64.exponentBias = 1023 := rfl
  unfold UnpackedFloat.unpack
  dsimp only
  by_cases hexp : unpackExponent b = -1#_
  · have hman := h hexp
    rw [if_pos hexp, if_pos hman]
    rw [hexp, hman] at hparts
    exact hparts
  rw [if_neg hexp]
  by_cases hzero : unpackExponent b = 0#_
  · rw [if_pos hzero]
    by_cases hman : unpackMantissa b = 0#_
    · rw [dif_pos hman]
      rw [hzero, hman] at hparts
      exact hparts
    · rw [dif_neg hman]
      have hlog := log2_subnormal hman
      have hsmall : ((unpackExponent b).toNat : Int) = 0 := by
        rw [hzero]
        rfl
      unfold UnpackedFloat.pack
      dsimp only
      rw [if_neg, if_neg]
      · rw [hzero] at hparts
        rw [BitVec.ofNat_toNat, BitVec.setWidth_eq]
        exact hparts
      · intro hnormal
        have hbits : Format.binary64.mantissaBits = 53 := rfl
        omega
      · rw [hsmall, hbias]
        decide
  · rw [if_neg hzero]
    have hbiased : ((unpackExponent b).toNat - ((Format.binary64.exponentBias : Int) + (52 : Nat)) +
        Format.binary64.exponentBias + (52 : Nat)).toNat = (unpackExponent b).toNat := by
      omega
    have hfinite : (unpackExponent b).toNat ≠ 2 ^ 11 - 1 := fun he =>
      hexp (BitVec.eq_of_toNat_eq he)
    unfold UnpackedFloat.pack
    dsimp only
    rw [hbiased, if_neg, if_pos]
    · rw [ofNat_implicit, BitVec.ofNat_toNat, BitVec.setWidth_eq]
      exact hparts
    · rw [log2_implicit]
      rfl
    · dsimp only at hexponent ⊢
      omega

theorem pack_unpack_undefined {b : BitVec Format.binary64.numBits} (he : unpackExponent b = -1#_)
    (hm : unpackMantissa b ≠ 0#_) :
    UnpackedFloat.pack .binary64 (UnpackedFloat.unpack .binary64 b) = packedNaN .binary64 := by
  unfold UnpackedFloat.unpack
  dsimp only
  rw [if_pos he, if_neg hm]
  rfl

theorem pack_unpack_of_valid {b : BitVec Format.binary64.numBits} (h : Format.binary64.Valid b) :
    UnpackedFloat.pack .binary64 (UnpackedFloat.unpack .binary64 b) = b := by
  by_cases hnan : unpackExponent b = -1#_ → unpackMantissa b = 0#_
  · exact pack_unpack hnan
  · obtain ⟨he, hm⟩ := Classical.not_imp.1 hnan
    rw [pack_unpack_undefined he hm]
    exact (h.eq_packedNaN he hm).symm

theorem pack_unpack_or (b : BitVec Format.binary64.numBits) :
    UnpackedFloat.pack .binary64 (UnpackedFloat.unpack .binary64 b) = b ∨
      UnpackedFloat.pack .binary64 (UnpackedFloat.unpack .binary64 b) = packedNaN .binary64 := by
  by_cases hnan : unpackExponent b = -1#_ → unpackMantissa b = 0#_
  · exact .inl (pack_unpack hnan)
  · obtain ⟨he, hm⟩ := Classical.not_imp.1 hnan
    exact .inr (pack_unpack_undefined he hm)

theorem ofBits_toBits (x : Float) : Float.ofBits x.toBits = x := by
  have hpack := pack_unpack_of_valid x.toModel.valid
  change Float.ofModel ⟨UInt64.ofBitVec _, _⟩ = x
  cases x with
  | ofModel m =>
    congr 1
    cases m with
    | mk bits valid =>
      congr 1
      exact congrArg UInt64.ofBitVec hpack

theorem toBits_ofBits {b : UInt64} (h : isFinite (.ofBits b) = true) :
    (Float.ofBits b).toBits = b := by
  have hbits : (Float.ofBits b).toBits.toBitVec =
      UnpackedFloat.pack .binary64 (UnpackedFloat.unpack .binary64 b.toBitVec) := rfl
  rcases pack_unpack_or b.toBitVec with hsame | hnan
  · rw [hsame] at hbits
    exact UInt64.toBitVec_inj.1 hbits
  · rw [hnan] at hbits
    have hcode : code (.ofBits b) = notANumber := by
      unfold code
      rw [← UInt64.toNat_toBitVec, hbits]
      decide
    have hfinite := of_decide_eq_true h
    rw [hcode] at hfinite
    exact absurd hfinite (by decide)

theorem ofCode_code (x : Float) : ofCode (isNegative x) (code x) = x := by
  have hbits := x.toBits.toNat_lt
  have hsum : code x + (if isNegative x then signBit else 0) = x.toBits.toNat := by
    have hmod := Nat.mod_add_div x.toBits.toNat signBit
    unfold code isNegative
    unfold signBit at *
    by_cases h : 9223372036854775808 ≤ x.toBits.toNat
    · simp only [h, decide_true, ↓reduceIte]
      omega
    · simp only [h, decide_false, Bool.false_eq_true, ↓reduceIte]
      omega
  unfold ofCode
  rw [hsum, UInt64.ofNat_toNat, ofBits_toBits]

theorem isNegative_ofCode {c : Nat} (hc : c < signBit) (h : isFinite (ofCode false c) = true) :
    isNegative (ofCode false c) = false := by
  have hsmall : c < 2 ^ 64 := Nat.lt_trans hc (by decide)
  have hbits : (ofCode false c).toBits = UInt64.ofNat c := toBits_ofBits h
  unfold isNegative
  rw [hbits, UInt64.toNat_ofNat', Nat.mod_eq_of_lt hsmall]
  exact decide_eq_false (by omega)

end Worksheet.Number
