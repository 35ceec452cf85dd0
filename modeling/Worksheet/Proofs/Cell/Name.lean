import Worksheet.Cell.Name
import Worksheet.Proofs.Text.Ascii
import Worksheet.Proofs.Text.Runs

set_option autoImplicit false

/-!
# Characters of cell names
-/
namespace Worksheet.Cell
open Worksheet.Text

theorem isCellName_iff (name : String) : isCellName name = true ↔
    ∃ letters digits, letters ≠ [] ∧ digits ≠ [] ∧ name.toList = letters ++ digits ∧
      (∀ c ∈ letters, c.isAlpha = true) ∧ ∀ c ∈ digits, c.isDigit = true := by
  have hsplit := List.takeWhile_append_dropWhile (p := Char.isAlpha) (l := name.toList)
  unfold isCellName splitName?
  dsimp only
  constructor
  · intro h
    split at h
    · rename_i hparts
      obtain ⟨hletters, hdigits, hall⟩ := hparts
      exact ⟨_, _, hletters, hdigits, hsplit.symm, List.all_eq_true.1 List.all_takeWhile,
        List.all_eq_true.1 hall⟩
    · cases h
  · rintro ⟨letters, digits, hletters, hdigits, hname, halpha, hdigit⟩
    have hstop : ∀ c, digits.head? = some c → c.isAlpha = false := by
      intro c hc
      have hcode := (isDigit_iff c).1 (hdigit c (List.mem_of_mem_head? hc))
      rw [Bool.eq_false_iff, ne_eq, isAlpha_iff]
      omega
    rw [hname, takeWhile_run halpha hstop, dropWhile_run halpha hstop,
      if_pos ⟨hletters, hdigits, List.all_eq_true.2 hdigit⟩]
    rfl

theorem exists_cons {name : String} (h : isCellName name = true) :
    ∃ c cs, name.toList = c :: cs ∧ c.isAlpha = true := by
  obtain ⟨letters, digits, hletters, -, hname, halpha, -⟩ := (isCellName_iff name).1 h
  cases letters with
  | nil => exact absurd rfl hletters
  | cons c letters => exact ⟨c, letters ++ digits, hname, halpha c List.mem_cons_self⟩

theorem mem_toList {name : String} (h : isCellName name = true) {c : Char}
    (hc : c ∈ name.toList) : (48 ≤ c.toNat ∧ c.toNat ≤ 57) ∨ (65 ≤ c.toNat ∧ c.toNat ≤ 90) ∨
      (97 ≤ c.toNat ∧ c.toNat ≤ 122) := by
  obtain ⟨letters, digits, -, -, hname, halpha, hdigit⟩ := (isCellName_iff name).1 h
  rw [hname] at hc
  rcases List.mem_append.1 hc with hc | hc
  · exact .inr ((isAlpha_iff c).1 (halpha c hc))
  · exact .inl ((isDigit_iff c).1 (hdigit c hc))

theorem not_mem_toList {name : String} (h : isCellName name = true) {c : Char}
    (hc : c.toNat < 48 ∨ (57 < c.toNat ∧ c.toNat < 65)) : c ∉ name.toList := by
  intro hmem
  have hcode := mem_toList h hmem
  omega

theorem trimList_toList {name : String} (h : isCellName name = true) :
    trimList name.toList = name.toList := by
  refine trimList_of_forall fun c hc => isBlank_of_ascii ?_
  have hcode := mem_toList h hc
  omega

end Worksheet.Cell
