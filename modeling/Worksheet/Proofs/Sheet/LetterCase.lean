import Worksheet.Proofs.Cell.Content
import Worksheet.Proofs.Formula.LetterCase
import Worksheet.Proofs.Sheet.Edit

set_option autoImplicit false

/-!
# The letter case of edits

A sheet that folds case takes no notice of it: names and formulas that differ in nothing else make the same
edit, or are refused for the same reason.
-/
namespace Worksheet
open Text

/-- An error with the texts that it quotes in small letters. The names on a loop are those of cells, which
are normalized. -/
def EditError.lowered : EditError → EditError
  | .invalidName name => .invalidName name.toLower
  | .formula fault => .formula fault.lowered
  | .circular cell path => .circular cell path

theorem Content.classify_toLower {naming : Naming}
    (hfolds : ∀ v, naming.normalize v.toLower = naming.normalize v) (text : String) :
    (classify naming ("=" ++ text.toLower)).mapError Formula.Fault.lowered =
      (classify naming ("=" ++ text)).mapError Formula.Fault.lowered := by
  rw [classify_equals, classify_equals]
  rcases Formula.mapError_eq_cases (Formula.parse_toLower hfolds text) with
    ⟨f, hf, hf'⟩ | ⟨fault, fault', hfault, hfault', hsame⟩
  · rw [hf, hf']
  · rw [hfault, hfault']
    exact congrArg Except.error hsame

namespace Sheet

section letterCase

variable {s : Sheet} (hcase : s.rules.letterCase ≠ .preserve)
include hcase

theorem set_toLower (name text : String) :
    (s.set name.toLower ("=" ++ text.toLower)).mapError EditError.lowered =
      (s.set name ("=" ++ text)).mapError EditError.lowered := by
  have hfolds (v : String) : s.rules.normalize v.toLower = s.rules.normalize v :=
    NameCase.apply_toLower hcase v
  have hnaming : ∀ v, s.rules.naming.normalize v.toLower = s.rules.naming.normalize v := hfolds
  simp only [set_eq, cellName, hfolds]
  by_cases hvalid : s.rules.acceptsCell (s.rules.normalize name) = true
  · simp only [hvalid, ↓reduceIte]
    rcases Formula.mapError_eq_cases (Content.classify_toLower hnaming text) with
      ⟨c, hc, hc'⟩ | ⟨fault, fault', hfault, hfault', hsame⟩
    · rw [hc, hc']
    · rw [hfault, hfault']
      exact congrArg (Except.error ∘ EditError.formula) hsame
  · simp [hvalid, Except.mapError, EditError.lowered, toLower_toLower_text]

/-- Where case is folded, an edit with a formula that is written in other letter case ends in the same
sheet with the same cells recalculated, or else in the same error up to the case of what it quotes. -/
theorem set_recased {name name' text text' : String} (hname : name.toLower = name'.toLower)
    (htext : text.toLower = text'.toLower) :
    (∃ t order, s.set name ("=" ++ text) = .ok (t, order) ∧
      s.set name' ("=" ++ text') = .ok (t, order)) ∨
    ∃ e e', s.set name ("=" ++ text) = .error e ∧ s.set name' ("=" ++ text') = .error e' ∧
      e.lowered = e'.lowered := by
  have hlower := set_toLower hcase name text
  rw [hname, htext, set_toLower hcase name' text'] at hlower
  rcases Formula.mapError_eq_cases hlower.symm with ⟨⟨t, order⟩, h⟩ | h
  · exact .inl ⟨t, order, h⟩
  · exact .inr h

end letterCase

theorem set_recased_names : (new ⟨"1", .upper, none, none⟩).rules.letterCase ≠ .preserve ∧
    "A1".toLower = "a1".toLower ∧ "B1".toLower = "b1".toLower ∧
    ∃ t order, (new ⟨"1", .upper, none, none⟩).set "A1" ("=" ++ "B1") = .ok (t, order) ∧
      (new ⟨"1", .upper, none, none⟩).set "a1" ("=" ++ "b1") = .ok (t, order) := by
  have hcase : (new ⟨"1", .upper, none, none⟩).rules.letterCase ≠ .preserve := by decide
  have hname : "A1".toLower = "a1".toLower :=
    String.toList_inj.1 (by rw [toList_toLower, toList_toLower]; decide)
  have htext : "B1".toLower = "b1".toLower :=
    String.toList_inj.1 (by rw [toList_toLower, toList_toLower]; decide)
  refine ⟨hcase, hname, htext, ?_⟩
  have normal_A1 : (new ⟨"1", .upper, none, none⟩).rules.normalize "A1" = "A1" :=
    String.toList_inj.1 (String.toList_map.trans (by decide))
  have normal_B1 : (new ⟨"1", .upper, none, none⟩).rules.normalize "B1" = "B1" :=
    String.toList_inj.1 (String.toList_map.trans (by decide))
  have name_A1 : (new ⟨"1", .upper, none, none⟩).cellName "A1" = .ok "A1" := by
    rw [cellName, normal_A1]
    rfl
  have names_B1 : Content.classify (new ⟨"1", .upper, none, none⟩).rules.naming ("=" ++ "B1") =
      .ok (.formula ⟨[.var "B1"], "B1"⟩) := Content.classify_var "B1" (by decide) normal_B1 (by decide)
  rcases set_recased hcase hname htext with h | ⟨e, e', he, -, -⟩
  · exact h
  · rw [set_of_valid _ name_A1 names_B1] at he
    cases he

end Sheet
end Worksheet
