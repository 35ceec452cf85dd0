import Worksheet.Text.Basic

set_option autoImplicit false

/-!
# ASCII characters

Letters and digits by their code points.
-/
namespace Worksheet.Text

theorem isDigit_iff (c : Char) : c.isDigit = true ↔ 48 ≤ c.toNat ∧ c.toNat ≤ 57 := by
  unfold Char.isDigit
  rw [Bool.and_eq_true, decide_eq_true_eq, decide_eq_true_eq]
  exact and_congr UInt32.le_iff_toNat_le UInt32.le_iff_toNat_le

theorem isUpper_iff (c : Char) : c.isUpper = true ↔ 65 ≤ c.toNat ∧ c.toNat ≤ 90 := by
  unfold Char.isUpper
  rw [decide_eq_true_eq]
  exact and_congr UInt32.le_iff_toNat_le UInt32.le_iff_toNat_le

theorem isLower_iff (c : Char) : c.isLower = true ↔ 97 ≤ c.toNat ∧ c.toNat ≤ 122 := by
  unfold Char.isLower
  rw [Bool.and_eq_true, decide_eq_true_eq, decide_eq_true_eq]
  exact and_congr UInt32.le_iff_toNat_le UInt32.le_iff_toNat_le

theorem isAlpha_iff (c : Char) : c.isAlpha = true ↔
    (65 ≤ c.toNat ∧ c.toNat ≤ 90) ∨ (97 ≤ c.toNat ∧ c.toNat ≤ 122) := by
  unfold Char.isAlpha
  rw [Bool.or_eq_true, isUpper_iff, isLower_iff]

theorem isBlank_of_ascii {c : Char} (h : 33 ≤ c.toNat ∧ c.toNat ≤ 126) : isBlank c = false := by
  unfold isBlank within blankRanges
  simp only [List.any_cons, List.any_nil, Bool.or_eq_false_iff, Bool.and_eq_false_imp,
    decide_eq_true_eq, decide_eq_false_iff_not, and_true]
  omega

theorem isBlank_of_isDigit {c : Char} (h : c.isDigit = true) : isBlank c = false := by
  have hcode := (isDigit_iff c).1 h
  exact isBlank_of_ascii (by omega)

section letterCase

theorem toUpper_eq_self {c : Char} (h : ¬(97 ≤ c.toNat ∧ c.toNat ≤ 122)) : c.toUpper = c := by
  unfold Char.toUpper
  rw [dif_neg]
  exact fun hc => h (hc.imp UInt32.le_iff_toNat_le.1 UInt32.le_iff_toNat_le.1)

theorem toLower_eq_self {c : Char} (h : ¬(65 ≤ c.toNat ∧ c.toNat ≤ 90)) : c.toLower = c := by
  unfold Char.toLower
  rw [dif_neg]
  exact fun hc => h (hc.imp UInt32.le_iff_toNat_le.1 UInt32.le_iff_toNat_le.1)

theorem toNat_toUpper {c : Char} (h : 97 ≤ c.toNat ∧ c.toNat ≤ 122) :
    c.toUpper.toNat = c.toNat - 32 := by
  have hshift : ('A'.val - 'a'.val).toNat = 4294967264 := rfl
  have hval : c.val.toNat = c.toNat := rfl
  unfold Char.toUpper
  rw [dif_pos ⟨UInt32.le_iff_toNat_le.2 h.1, UInt32.le_iff_toNat_le.2 h.2⟩]
  change (c.val + ('A'.val - 'a'.val)).toNat = c.toNat - 32
  rw [UInt32.toNat_add, hshift, hval]
  omega

theorem toNat_toLower {c : Char} (h : 65 ≤ c.toNat ∧ c.toNat ≤ 90) :
    c.toLower.toNat = c.toNat + 32 := by
  have hshift : ('a'.val - 'A'.val).toNat = 32 := rfl
  have hval : c.val.toNat = c.toNat := rfl
  unfold Char.toLower
  rw [dif_pos ⟨UInt32.le_iff_toNat_le.2 h.1, UInt32.le_iff_toNat_le.2 h.2⟩]
  change (c.val + ('a'.val - 'A'.val)).toNat = c.toNat + 32
  rw [UInt32.toNat_add, hshift, hval]
  omega

theorem toUpper_toUpper (c : Char) : c.toUpper.toUpper = c.toUpper := by
  by_cases h : 97 ≤ c.toNat ∧ c.toNat ≤ 122
  · have hcode := toNat_toUpper h
    exact toUpper_eq_self (by omega)
  · rw [toUpper_eq_self h, toUpper_eq_self h]

theorem toLower_toLower (c : Char) : c.toLower.toLower = c.toLower := by
  by_cases h : 65 ≤ c.toNat ∧ c.toNat ≤ 90
  · have hcode := toNat_toLower h
    exact toLower_eq_self (by omega)
  · rw [toLower_eq_self h, toLower_eq_self h]

theorem toLower_cases (c : Char) :
    (c.toLower = c ∧ ¬(65 ≤ c.toNat ∧ c.toNat ≤ 90)) ∨
      (65 ≤ c.toNat ∧ c.toNat ≤ 90 ∧ c.toLower.toNat = c.toNat + 32) := by
  by_cases h : 65 ≤ c.toNat ∧ c.toNat ≤ 90
  · exact .inr ⟨h.1, h.2, toNat_toLower h⟩
  · exact .inl ⟨toLower_eq_self h, h⟩

theorem toUpper_toLower (c : Char) : c.toLower.toUpper = c.toUpper := by
  rcases toLower_cases c with ⟨hsame, -⟩ | ⟨hfirst, hlast, hcode⟩
  · rw [hsame]
  · rw [toUpper_eq_self (c := c) (by omega)]
    apply Char.toNat_inj.1
    rw [toNat_toUpper (by omega), hcode]
    omega

theorem toLower_eq_iff {c d : Char} (hd : d.isAlpha = false) : c.toLower = d ↔ c = d := by
  rw [Bool.eq_false_iff, ne_eq, isAlpha_iff] at hd
  rcases toLower_cases c with ⟨hsame, -⟩ | ⟨hfirst, hlast, hcode⟩
  · rw [hsame]
  · constructor
    · rintro rfl
      omega
    · rintro rfl
      omega

theorem toLower_ne {c d : Char} (hd : d.isAlpha = false) (h : c ≠ d) : c.toLower ≠ d :=
  mt (toLower_eq_iff hd).1 h

theorem isDigit_toLower (c : Char) : c.toLower.isDigit = c.isDigit := by
  rcases toLower_cases c with ⟨hsame, -⟩ | ⟨hfirst, hlast, hcode⟩
  · rw [hsame]
  · rw [Bool.eq_iff_iff, isDigit_iff, isDigit_iff]
    omega

theorem isAlpha_toLower (c : Char) : c.toLower.isAlpha = c.isAlpha := by
  rcases toLower_cases c with ⟨hsame, -⟩ | ⟨hfirst, hlast, hcode⟩
  · rw [hsame]
  · rw [Bool.eq_iff_iff, isAlpha_iff, isAlpha_iff]
    omega

theorem isBlank_toLower (c : Char) : isBlank c.toLower = isBlank c := by
  rcases toLower_cases c with ⟨hsame, -⟩ | ⟨hfirst, hlast, hcode⟩
  · rw [hsame]
  · rw [isBlank_of_ascii (by omega), isBlank_of_ascii (by omega)]

theorem map_map_eq {f g : Char → Char} (h : ∀ c, g (f c) = g c) (s : String) :
    (s.map f).map g = s.map g := by
  rw [String.map_map]
  congr 1
  exact funext h

theorem toLower_toLower_text (s : String) : s.toLower.toLower = s.toLower :=
  map_map_eq toLower_toLower s

end letterCase

section lowered

/-- A text with its capitals made small. -/
def lowered (cs : List Char) : List Char := cs.map Char.toLower

@[simp] theorem lowered_nil : lowered [] = [] := rfl

@[simp] theorem lowered_cons (c : Char) (cs : List Char) :
    lowered (c :: cs) = c.toLower :: lowered cs := rfl

@[simp] theorem lowered_append (cs ds : List Char) : lowered (cs ++ ds) = lowered cs ++ lowered ds :=
  List.map_append

@[simp] theorem lowered_eq_nil {cs : List Char} : lowered cs = [] ↔ cs = [] := List.map_eq_nil_iff

@[simp] theorem lowered_lowered (cs : List Char) : lowered (lowered cs) = lowered cs := by
  rw [lowered, lowered, List.map_map]
  exact List.map_congr_left fun c _ => toLower_toLower c

theorem toList_toLower (s : String) : s.toLower.toList = lowered s.toList := String.toList_map

theorem ofList_lowered (cs : List Char) : String.ofList (lowered cs) = (String.ofList cs).toLower :=
  String.toList_inj.1 (by rw [toList_toLower, String.toList_ofList, String.toList_ofList])

theorem lowered_of_isDigit {cs : List Char} (h : ∀ c ∈ cs, c.isDigit = true) : lowered cs = cs := by
  refine (List.map_congr_left fun c hc => toLower_eq_self ?_).trans (List.map_id cs)
  have hcode := (isDigit_iff c).1 (h c hc)
  omega

variable {p : Char → Bool} (hp : ∀ c : Char, p c.toLower = p c) (cs : List Char)

include hp

theorem takeWhile_lowered : (lowered cs).takeWhile p = lowered (cs.takeWhile p) := by
  rw [lowered, List.takeWhile_map, show p ∘ Char.toLower = p from funext hp, lowered]

theorem dropWhile_lowered : (lowered cs).dropWhile p = lowered (cs.dropWhile p) := by
  rw [lowered, List.dropWhile_map, show p ∘ Char.toLower = p from funext hp, lowered]

theorem all_lowered : (lowered cs).all p = cs.all p := by
  rw [lowered, List.all_map, show p ∘ Char.toLower = p from funext hp]

end lowered
end Worksheet.Text
