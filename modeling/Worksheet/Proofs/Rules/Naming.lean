import Worksheet.Proofs.Formula.Canonical
import Worksheet.Rules

set_option autoImplicit false

/-!
# The naming of a sheet

Letter case is folded once and for all, and numbers have none.
-/
namespace Worksheet
open Text

theorem NameCase.apply_apply (letterCase : NameCase) (s : String) :
    letterCase.apply (letterCase.apply s) = letterCase.apply s := by
  cases letterCase with
  | preserve => rfl
  | upper => exact map_map_eq toUpper_toUpper s
  | lower => exact map_map_eq toLower_toLower s

theorem NameCase.apply_toLower {letterCase : NameCase} (h : letterCase ≠ .preserve) (s : String) :
    letterCase.apply s.toLower = letterCase.apply s := by
  cases letterCase with
  | preserve => exact absurd rfl h
  | upper => exact map_map_eq toUpper_toLower s
  | lower => exact map_map_eq toLower_toLower s

theorem map_eq_self {g : Char → Char} {s : String} (h : ∀ c ∈ s.toList, g c = c) :
    s.map g = s := by
  apply String.toList_inj.1
  rw [String.toList_map, List.map_congr_left h, List.map_id']

theorem NameCase.apply_eq_self (letterCase : NameCase) {s : String}
    (h : ∀ c ∈ s.toList, c.toNat < 65) : letterCase.apply s = s := by
  cases letterCase with
  | preserve => rfl
  | upper =>
    refine map_eq_self fun c hc => toUpper_eq_self ?_
    have hcode := h c hc
    omega
  | lower =>
    refine map_eq_self fun c hc => toLower_eq_self ?_
    have hcode := h c hc
    omega

theorem NameCase.keepsNumbers (letterCase : NameCase) (accepts : String → Bool) :
    Naming.KeepsNumbers ⟨letterCase.apply, accepts⟩ := by
  intro x hfinite _
  refine letterCase.apply_eq_self fun c hc => ?_
  have htext : (Number.toText x).toList = Number.text x := String.toList_ofList
  rw [htext] at hc
  rcases Number.mem_text hfinite hc with hdigit | rfl | rfl
  · have hcode := (isDigit_iff c).1 hdigit
    omega
  · decide
  · decide

theorem Rules.naming_stable (r : Rules) : r.naming.Stable :=
  ⟨r.letterCase.apply_apply, r.letterCase.keepsNumbers r.acceptsCell⟩

end Worksheet
