import Worksheet.Proofs.Cell.Content
import Worksheet.Proofs.Graph.Audit
import Worksheet.Proofs.Sheet.Recalculation

set_option autoImplicit false

/-!
# Refused edits

An edit with a valid name and content is refused exactly when it would close a loop, and then it names
one. Numbers and texts are never refused.
-/
namespace Worksheet.Sheet
open Relation

/-- A cell depends on another one, directly or by way of others. -/
def DependsOn (s : Sheet) (m n : String) : Prop := TransGen (Follows s.graph.dependentsOf) n m

/-- A loop that new content for `n` would close: from `n` over direct dependents, no key twice, to a
key that the content names, and from there to `n`. -/
structure WouldClose (s : Sheet) (n : String) (vars path : List String) : Prop where
  begins : path.head? = some n
  ends : path.getLast? = some n
  nodup : path.dropLast.Nodup
  chain : path.dropLast.IsChain fun u v => v ∈ s.graph.dependentsOf u
  named : ∃ v ∈ vars, path.dropLast.getLast? = some v

theorem reaches_iff (s : Sheet) (n v : String) :
    ReflTransGen (Follows s.graph.dependentsOf) n v ↔ v = n ∨ s.DependsOn v n := by
  rw [reflTransGen_iff_eq_or_transGen]
  rfl

theorem isLoop_iff_prospective (s : Sheet) {n : String} {vars path : List String} :
    s.graph.isLoop n vars path = true ↔ IsLoop (s.prospective n vars) n path := by
  refine s.graph.isLoop_iff (fun u => ?_) fun u v hv => ?_
  · rw [follows_prospective]
    simp
  · rw [follows_prospective]
    simp [hv]

theorem wouldClose_of_isLoop {s : Sheet} {n : String} {vars path : List String}
    (h : IsLoop (s.prospective n vars) n path) : s.WouldClose n vars path := by
  obtain ⟨hclosed, hnodup, hbegins, hchain, l, hl, hvars⟩ :=
    s.graph.isLoop_iff_trail.1 (s.isLoop_iff_prospective.2 h)
  refine ⟨?_, hclosed, hnodup, hchain, l, hvars, hl⟩
  obtain ⟨keys, rfl⟩ := List.getLast?_eq_some_iff.1 hclosed
  rw [List.dropLast_concat] at hbegins
  rw [List.head?_append, hbegins]
  rfl

theorem set_circular_iff (rules : Rules) (edits : List (String × String)) {name raw n : String}
    {c : Content} (hn : (afterEdits rules edits).cellName name = .ok n)
    (hc : Content.classify rules.naming raw = .ok c) :
    ((∃ cell path, (afterEdits rules edits).set name raw = .error (.circular cell path)) ↔
      ∃ v ∈ c.vars, v = n ∨ (afterEdits rules edits).DependsOn v n) ∧
    (∀ e, (afterEdits rules edits).set name raw = .error e →
      (∃ path, e = .circular n path ∧ (afterEdits rules edits).WouldClose n c.vars path) ∧
      (afterEdits rules edits).attempt (name, raw) = afterEdits rules edits) ∧
    (c.formula? = none → ∃ s order, (afterEdits rules edits).set name raw = .ok (s, order)) := by
  have hs := afterEdits_sound rules edits
  rw [← rules_afterEdits rules edits] at hc
  generalize afterEdits rules edits = s at hn hc hs
  have answer := prospectiveOrder_answers hs.consistent n c.vars
  have named : TransGen (Follows (s.prospective n c.vars)) n n ↔
      ∃ v ∈ c.vars, v = n ∨ s.DependsOn v n := by
    simp only [transGen_prospective, reaches_iff]
  rw [← named]
  have result := set_of_valid s hn hc
  cases ho : s.prospectiveOrder n c.vars with
  | ok order =>
    rw [ho] at answer result
    refine ⟨?_, ?_, fun _ => ⟨_, _, result⟩⟩
    · refine iff_of_false ?_ answer.1
      rintro ⟨cell, path, he⟩
      cases result.symm.trans he
    · intro e he
      cases result.symm.trans he
  | error loop =>
    rw [ho] at answer result
    refine ⟨?_, ?_, ?_⟩
    · exact iff_of_true ⟨n, loop.path, result⟩ answer.transGen
    · intro e he
      obtain rfl : .circular n loop.path = e := by
        simpa using result.symm.trans he
      refine ⟨⟨loop.path, rfl, wouldClose_of_isLoop answer⟩, ?_⟩
      simp only [attempt_eq, he]
    · intro hf
      obtain ⟨v, hv, -⟩ := named.1 answer.transGen
      simp [Content.vars, hf] at hv

theorem set_circular_through_formula :
    (afterEdits .standard [("A1", "=B1")]).cellName "B1" = .ok "B1" ∧
      Content.classify Rules.standard.naming "=A1" = .ok (.formula ⟨[.var "A1"], "A1"⟩) ∧
      ∃ cell path, (afterEdits .standard [("A1", "=B1")]).set "B1" "=A1" =
        .error (.circular cell path) := by
  have parse_A1 : Formula.parse Rules.standard.naming "A1" = .ok ⟨[.var "A1"], "A1"⟩ :=
    Formula.parse_var (by decide) rfl (by decide)
  have parse_B1 : Formula.parse Rules.standard.naming "B1" = .ok ⟨[.var "B1"], "B1"⟩ :=
    Formula.parse_var (by decide) rfl (by decide)
  have names_A1 : Content.classify Rules.standard.naming "=A1" =
      .ok (.formula ⟨[.var "A1"], "A1"⟩) := Content.classify_formula parse_A1
  have names_B1 : Content.classify Rules.standard.naming "=B1" =
      .ok (.formula ⟨[.var "B1"], "B1"⟩) := Content.classify_formula parse_B1
  have first : (new .standard).set "A1" "=B1" = .ok
      (((new .standard).commit "A1" (.formula ⟨[.var "B1"], "B1"⟩)).recalculate ["A1"], ["A1"]) := by
    rw [set_of_valid (n := "A1") _ (by decide) names_B1]
    rfl
  have same : afterEdits .standard [("A1", "=B1")] =
      ((new .standard).commit "A1" (.formula ⟨[.var "B1"], "B1"⟩)).recalculate ["A1"] := by
    simp only [afterEdits, List.foldl_cons, List.foldl_nil, attempt_eq, first]
  have edge : (afterEdits .standard [("A1", "=B1")]).DependsOn "A1" "B1" := by
    rw [same, DependsOn, graph_recalculate]
    exact .single (by decide : "A1" ∈ _)
  have name_B1 : (afterEdits .standard [("A1", "=B1")]).cellName "B1" = .ok "B1" := by
    rw [cellName_afterEdits]
    decide
  exact ⟨name_B1, names_A1,
    (set_circular_iff .standard [("A1", "=B1")] name_B1 names_A1).1.2 ⟨"A1", by decide, .inr edge⟩⟩

end Worksheet.Sheet
