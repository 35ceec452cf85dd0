import Worksheet.Cell.Content
import Worksheet.Proofs.Formula.Equality
import Worksheet.Proofs.Rules.Naming

set_option autoImplicit false

/-!
# Contents read back

The raw text that a content gives is classified as that content again. Contents that were read under the
same naming differ only where their numbers, texts or formulas do.
-/
namespace Worksheet
open Text

namespace Content

theorem readFinite_formula (cs : List Char) :
    Number.readFinite (trimList ('=' :: cs)) = none := by
  obtain ⟨ds, hds⟩ := trimList_cons (c := '=') (by decide) cs
  have hnumeral : Number.numeral ('=' :: ds) = none := rfl
  have hunsigned : Number.unsigned ('=' :: ds) = none := by
    have hne {c : Char} {cs : List Char} (hc : c ≠ '=') : ('=' :: ds).map Char.toLower ≠ c :: cs :=
      fun h => hc (List.cons.inj h).1.symm
    unfold Number.unsigned
    rw [hnumeral]
    dsimp only
    rw [if_neg, if_neg]
    · exact hne (by decide)
    · rintro (h | h)
      · exact hne (by decide) h
      · exact hne (by decide) h
  have hread : Number.read ('=' :: ds) = none := by
    change (Number.unsigned ('=' :: ds)).map (Number.ofCode false) = none
    rw [hunsigned, Option.map_none]
  rw [hds]
  unfold Number.readFinite
  rw [hread, Option.filter_none]

theorem classify_number {naming : Naming} {x : Float} (h : Number.isFinite x = true) :
    classify naming (Number.toText x) = .ok (.number x) := by
  have htext : (Number.toText x).toList = Number.text x := String.toList_ofList
  unfold classify
  rw [htext, Number.trimList_text h, Number.readFinite_text h]

theorem classify_equals (naming : Naming) (text : String) :
    classify naming ("=" ++ text) = (Formula.parse naming text).map .formula := by
  have htext : ("=" ++ text).toList = '=' :: text.toList := by
    rw [String.toList_append]
    rfl
  unfold classify
  rw [htext, readFinite_formula]
  change (Formula.parse naming (String.ofList text.toList)).map Content.formula = _
  rw [String.ofList_toList]

theorem classify_formula {naming : Naming} {text : String} {f : Formula}
    (h : Formula.parse naming text = .ok f) :
    classify naming ("=" ++ text) = .ok (.formula f) := by
  rw [classify_equals, h]
  rfl

theorem classify_var {naming : Naming} (name : String) (hvariable : Formula.isVariable name = true)
    (hnormal : naming.normalize name = name) (haccepts : naming.accepts name = true) :
    classify naming ("=" ++ name) = .ok (.formula ⟨[.var name], name⟩) :=
  classify_formula (Formula.parse_var hvariable hnormal haccepts)

theorem parse_of_classify {naming : Naming} {raw : String} {f : Formula}
    (h : classify naming raw = .ok (.formula f)) : ∃ text, Formula.parse naming text = .ok f := by
  unfold classify at h
  split at h
  · cases h
  split at h
  · rename_i rest _
    refine ⟨String.ofList rest, ?_⟩
    cases hf : Formula.parse naming (String.ofList rest) with
    | error e => simp [hf, Except.map] at h
    | ok g =>
      rw [hf] at h
      exact congrArg Except.ok (Content.formula.inj (Except.ok.inj h))
  · cases h

/-- The content that a raw text gives is given by its own raw text. -/
theorem classify_input {naming : Naming} (hnaming : naming.Stable) {raw : String} {c : Content}
    (h : classify naming raw = .ok c) : classify naming c.input = .ok c := by
  have hraw := h
  unfold classify at h
  split at h
  · rename_i x hx
    obtain rfl := Except.ok.inj h
    exact classify_number (Number.isFinite_of_readFinite hx)
  split at h
  · rename_i rest hrest
    cases hf : Formula.parse naming (String.ofList rest) with
    | error e => simp [hf, Except.map] at h
    | ok f =>
      rw [hf] at h
      obtain rfl := Except.ok.inj h
      exact classify_formula (Formula.parse_text hnaming hf)
  · obtain rfl := Except.ok.inj h
    exact hraw

/-- The same number bit for bit, the same text, or formulas that count as equal. -/
def Same : Content → Content → Prop
  | number x, number y => x.toBits = y.toBits
  | text t, text u => t = u
  | formula f, formula g => (f == g) = true
  | _, _ => False

theorem eq_of_same {naming : Naming} {raw raw' : String} {c d : Content}
    (hc : classify naming raw = .ok c) (hd : classify naming raw' = .ok d) (h : c.Same d) :
    c = d := by
  cases c with
  | number x =>
    cases d with
    | number y =>
      have hbits := congrArg Float.ofBits (show x.toBits = y.toBits from h)
      rw [Number.ofBits_toBits, Number.ofBits_toBits] at hbits
      exact congrArg number hbits
    | text _ | formula _ => cases h
  | text t =>
    cases d with
    | text u => exact congrArg text h
    | number _ | formula _ => cases h
  | formula f =>
    cases d with
    | formula g =>
      obtain ⟨s, hf⟩ := parse_of_classify hc
      obtain ⟨s', hg⟩ := parse_of_classify hd
      exact congrArg formula (Formula.eq_of_beq hf hg h)
    | number _ | text _ => cases h

end Content
end Worksheet
