import Worksheet.Proofs.Sheet.Circular

set_option autoImplicit false

/-!
# What an edit affects

An accepted edit gives back the edited cell and the cells that depend on it, in an order in which they
can be recalculated. Everything else in the sheet stays as it was.
-/
namespace Worksheet.Sheet
open Relation

/-- What an edit of `n` makes of the sheet `s`, and the cells that it lists. Dependence is that in the
sheet `t` after the edit. -/
structure Edited (s : Sheet) (n : String) (c : Content) (t : Sheet) (order : List String) : Prop where
  nodup : order.Nodup
  begins : order.head? = some n
  mem_iff : ∀ m, m ∈ order ↔ m = n ∨ t.DependsOn m n
  sorted : ∀ a u b, order = a ++ u :: b → ∀ v ∈ order, u ∈ t.graph.dependentsOf v → v ∈ a
  prospective : ∀ k m, m ∈ t.graph.dependentsOf k ↔ m ∈ s.prospective n c.vars k
  given : t.contentOf n = c
  content : ∀ m, m ≠ n → t.contentOf m = s.contentOf m
  value : ∀ m, m ∉ order → t.valueOf m = s.valueOf m
  dependents : ∀ v m, m ≠ n → (m ∈ t.graph.dependentsOf v ↔ m ∈ s.graph.dependentsOf v)
  dependees : ∀ v m, m ≠ n → (v ∈ t.graph.dependeesOf m ↔ v ∈ s.graph.dependeesOf m)

theorem Sound.edited {s t : Sheet} (hs : s.Sound) {name raw : String} {order : List String}
    (h : s.set name raw = .ok (t, order)) : ∃ n c, s.cellName name = .ok n ∧
      Content.classify s.rules.naming raw = .ok c ∧ s.Edited n c t order := by
  have ht := hs.set h
  obtain ⟨n, c, hn, hc, ho, rfl⟩ := set_eq_ok h
  refine ⟨n, c, hn, hc, ?_⟩
  have answer := prospectiveOrder_answers hs.consistent n c.vars
  rw [ho] at answer
  have horder := answer.2
  have listed : n ∈ order := List.mem_of_head? horder.begins
  generalize htdef : (s.commit n c).recalculate order = t at ht ⊢
  have edges : Follows t.graph.dependentsOf = Follows (s.prospective n c.vars) := by
    rw [← htdef, graph_recalculate]
    exact follows_commit_eq hs.consistent n c
  have follows (k m : String) : m ∈ t.graph.dependentsOf k ↔ m ∈ s.prospective n c.vars k :=
    iff_of_eq (congrFun (congrFun edges k) m)
  have kept (v m : String) (hm : m ≠ n) :
      m ∈ t.graph.dependentsOf v ↔ m ∈ s.graph.dependentsOf v := by
    refine ((follows v m).trans (follows_prospective s n c.vars v m)).trans ?_
    simp [hm, Follows]
  refine ⟨horder.nodup, horder.begins, fun m => ?_, ?_, follows, ?_, fun m hm => ?_, fun m hm => ?_,
    kept, fun v m hm => ?_⟩
  · rw [horder.mem_iff, ← edges, reaches_iff]
  · intro a u b hab v hv huv
    have acyclic := ht.acyclic
    rw [edges] at acyclic
    exact horder.mem_before acyclic hab hv ((follows v u).1 huv)
  · rw [← htdef, contentOf_recalculate, contentOf_commit, if_pos rfl]
  · rw [← htdef, contentOf_recalculate, contentOf_commit, if_neg hm]
  · have hne : m ≠ n := fun he => hm (he ▸ listed)
    rw [← htdef, valueOf_recalculate _ hm, valueOf_commit s c hne]
  · rw [← ht.consistent, ← hs.consistent]
    exact kept v m hm

/-- An accepted edit lists the edited cell and all that depends on it, each cell after those it depends
on, and leaves alone everything but the values of these cells and the content and edges of the edited
one. -/
theorem set_edited (rules : Rules) (edits : List (String × String)) {name raw : String} {t : Sheet}
    {order : List String} (h : (afterEdits rules edits).set name raw = .ok (t, order)) :
    ∃ n c, (afterEdits rules edits).cellName name = .ok n ∧
      Content.classify rules.naming raw = .ok c ∧ (afterEdits rules edits).Edited n c t order := by
  obtain ⟨n, c, hn, hc, hedited⟩ := (afterEdits_sound rules edits).edited h
  rw [rules_afterEdits] at hc
  exact ⟨n, c, hn, hc, hedited⟩

theorem set_edited_named : ∃ t,
    (afterEdits .standard [("B1", "=A1")]).set "A1" "=C1" = .ok (t, ["A1", "B1"]) ∧
      ∃ n c, (afterEdits .standard [("B1", "=A1")]).cellName "A1" = .ok n ∧
        Content.classify Rules.standard.naming "=C1" = .ok c ∧
        (afterEdits .standard [("B1", "=A1")]).Edited n c t ["A1", "B1"] := by
  have names_A1 : Content.classify Rules.standard.naming "=A1" =
      .ok (.formula ⟨[.var "A1"], "A1"⟩) := Content.classify_var "A1" (by decide) rfl (by decide)
  have names_C1 : Content.classify Rules.standard.naming "=C1" =
      .ok (.formula ⟨[.var "C1"], "C1"⟩) := Content.classify_var "C1" (by decide) rfl (by decide)
  have first : (new .standard).set "B1" "=A1" = .ok
      (((new .standard).commit "B1" (.formula ⟨[.var "A1"], "A1"⟩)).recalculate ["B1"], ["B1"]) := by
    rw [set_of_valid (n := "B1") _ (by decide) names_A1]
    rfl
  have same : afterEdits .standard [("B1", "=A1")] =
      ((new .standard).commit "B1" (.formula ⟨[.var "A1"], "A1"⟩)).recalculate ["B1"] := by
    simp only [afterEdits, List.foldl_cons, List.foldl_nil, attempt_eq, first]
  have name_A1 : (afterEdits .standard [("B1", "=A1")]).cellName "A1" = .ok "A1" := by
    rw [cellName_afterEdits]
    decide
  have order : (afterEdits .standard [("B1", "=A1")]).prospectiveOrder "A1"
      (Content.formula ⟨[.var "C1"], "C1"⟩).vars = .ok ["A1", "B1"] := by
    rw [same]
    rfl
  have second : (afterEdits .standard [("B1", "=A1")]).set "A1" "=C1" = .ok
      (((afterEdits .standard [("B1", "=A1")]).commit "A1" (.formula ⟨[.var "C1"], "C1"⟩)).recalculate
        ["A1", "B1"], ["A1", "B1"]) := by
    rw [set_of_valid _ name_A1 (by rw [rules_afterEdits]; exact names_C1), order]
  exact ⟨_, second, set_edited .standard [("B1", "=A1")] second⟩

end Worksheet.Sheet
