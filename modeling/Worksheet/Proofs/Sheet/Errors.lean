import Worksheet.Proofs.Sheet.Dependencies

set_option autoImplicit false

/-!
# Where errors come from and how far they reach

A formula needs a number in each cell that it names. Where one of them has none, the formula has an
error, and by way of it so has every formula that depends on the cell, over however many others.
-/
namespace Worksheet
open Relation

namespace Sheet

theorem Sound.accounts {s : Sheet} (hs : s.Sound) {c : String} {f : Formula}
    (hc : s.contentOf c = .formula f) :
    ∃ r, s.valueOf c = .ofResult r ∧ Formula.Accounts s.numberOf f.tokens r := by
  have hvalue : FromScratch s.contentOf c (.ofResult (f.value s.numberOf)) :=
    .formula s.valueOf hc fun v _ => hs.fromScratch v
  exact ⟨f.value s.numberOf, (hs.fromScratch c).unique hvalue,
    Formula.evaluate_accounts s.numberOf f.tokens⟩

theorem numberOf_eq_some {s : Sheet} {n : String} {x : Float} :
    s.numberOf n = some x ↔ s.valueOf n = .number x := by
  unfold numberOf
  cases s.valueOf n with
  | number y => simp [Value.number?]
  | text _ | error _ => exact iff_of_false nofun nofun

theorem numberOf_of_isError {s : Sheet} {n : String} (h : (s.valueOf n).isError = true) :
    s.numberOf n = none := by
  unfold numberOf
  cases hv : s.valueOf n with
  | error e => rfl
  | number _ | text _ =>
    rw [hv] at h
    cases h

section spread

variable {s : Sheet} (hs : s.Sound)
include hs

/-- One step: a formula that names a cell without a number has an error. -/
theorem Sound.isError_of_follows {d c : String} (h : Follows s.graph.dependentsOf d c)
    (hd : s.numberOf d = none) : (s.valueOf c).isError = true := by
  obtain ⟨f, hf, hvar⟩ := Content.mem_vars_iff.1 ((hs.follows_iff d c).1 h)
  obtain ⟨r, hr, haccounts⟩ := hs.accounts hf
  rw [hr]
  cases haccounts with
  | value hfound =>
    have hsome := hfound d hvar
    rw [hd] at hsome
    cases hsome
  | undefined _ _ | division => rfl

theorem Sound.isError_of_dependsOn {d c : String} (h : s.DependsOn c d)
    (hd : s.numberOf d = none) : (s.valueOf c).isError = true := by
  induction h with
  | single hfirst => exact hs.isError_of_follows hfirst hd
  | tail _ hnext ih => exact hs.isError_of_follows hnext (numberOf_of_isError ih)

end spread

/-- After any edits, refused ones among them, a cell has an error if it depends on one without a number,
so that a number in a cell rests on numbers only. A formula has an error of its own only where it divides
by zero; else it tells a cell that it names and that has no number. -/
theorem afterEdits_errors_spread (rules : Rules) (edits : List (String × String)) (c : String) :
    (∀ d, (afterEdits rules edits).DependsOn c d → (afterEdits rules edits).numberOf d = none →
      ((afterEdits rules edits).valueOf c).isError = true) ∧
    (∀ x, (afterEdits rules edits).valueOf c = .number x →
      ∀ d, (afterEdits rules edits).DependsOn c d →
        ∃ y, (afterEdits rules edits).valueOf d = .number y) ∧
    ∀ f, (afterEdits rules edits).contentOf c = .formula f →
      (∀ v, (afterEdits rules edits).valueOf c = .error (.undefinedVariable v) →
        .var v ∈ f.tokens ∧ (afterEdits rules edits).numberOf v = none) ∧
      ((∀ v, .var v ∈ f.tokens → ∃ x, (afterEdits rules edits).valueOf v = .number x) →
        (∃ x, (afterEdits rules edits).valueOf c = .number x) ∨
          (afterEdits rules edits).valueOf c = .error .divisionByZero) := by
  have hs := afterEdits_sound rules edits
  generalize afterEdits rules edits = s at hs ⊢
  refine ⟨fun d => hs.isError_of_dependsOn, ?_, ?_⟩
  · intro x hx d hd
    cases hn : s.numberOf d with
    | some y => exact ⟨y, numberOf_eq_some.1 hn⟩
    | none =>
      have herror := hs.isError_of_dependsOn hd hn
      rw [hx] at herror
      cases herror
  · intro f hf
    obtain ⟨r, hr, haccounts⟩ := hs.accounts hf
    rw [hr]
    cases haccounts with
    | @value y _ =>
      refine ⟨fun v hv => ?_, fun _ => .inl ⟨y, rfl⟩⟩
      cases hv
    | @undefined u hu hnone =>
      refine ⟨fun v hv => ?_, fun hall => ?_⟩
      · cases hv
        exact ⟨hu, hnone⟩
      · obtain ⟨y, hy⟩ := hall u hu
        cases hnone.symm.trans (numberOf_eq_some.2 hy)
    | division =>
      refine ⟨fun v hv => ?_, fun _ => .inr rfl⟩
      cases hv

theorem afterEdits_errors_spread_twice :
    (afterEdits .standard [("B1", "=A1"), ("C1", "=B1")]).DependsOn "C1" "A1" ∧
      (afterEdits .standard [("B1", "=A1"), ("C1", "=B1")]).numberOf "A1" = none ∧
      ((afterEdits .standard [("B1", "=A1"), ("C1", "=B1")]).valueOf "C1").isError = true := by
  have names_A1 : Content.classify Rules.standard.naming "=A1" =
      .ok (.formula ⟨[.var "A1"], "A1"⟩) := Content.classify_var "A1" (by decide) rfl (by decide)
  have names_B1 : Content.classify Rules.standard.naming "=B1" =
      .ok (.formula ⟨[.var "B1"], "B1"⟩) := Content.classify_var "B1" (by decide) rfl (by decide)
  have same : afterEdits .standard [("B1", "=A1"), ("C1", "=B1")] =
      ((((new .standard).commit "B1" (.formula ⟨[.var "A1"], "A1"⟩)).recalculate ["B1"]).commit "C1"
        (.formula ⟨[.var "B1"], "B1"⟩)).recalculate ["C1"] := by
    rw [afterEdits, List.foldl_cons, attempt_of_valid (n := "B1") (by decide) names_A1 rfl]
    exact attempt_of_valid (by decide) names_B1 rfl
  have edges : (afterEdits .standard [("B1", "=A1"), ("C1", "=B1")]).DependsOn "C1" "A1" := by
    rw [same, DependsOn, graph_recalculate]
    exact .tail (.single (by decide : "B1" ∈ _)) (by decide : "C1" ∈ _)
  have empty : (afterEdits .standard [("B1", "=A1"), ("C1", "=B1")]).numberOf "A1" = none := by
    rw [same]
    rfl
  exact ⟨edges, empty,
    (afterEdits_errors_spread .standard [("B1", "=A1"), ("C1", "=B1")] "C1").1 "A1" edges empty⟩

end Sheet
end Worksheet
