import Worksheet.Proofs.Sheet.Tidy

set_option autoImplicit false

/-!
# Orders of recalculation

An edit leaves the same sheet by whatever list its cells are recalculated, as long as each comes after those
it depends on. So it makes no difference in which order the dependents of a cell are enumerated.
-/
namespace Worksheet.Sheet
open Relation

/-- What an edit of `n` leaves is `t` by every list by which it can be recalculated, and the values in it are
those that the contents have from scratch. Such a list is what the walk gives, however it is told the direct
dependents of the cells. -/
structure Confluent (s : Sheet) (n : String) (c : Content) (t : Sheet) : Prop where
  fromScratch : ∀ m, FromScratch t.contentOf m (t.valueOf m)
  alike : ∀ names, (s.commit n c).Schedule n names → ((s.commit n c).recalculate names).Alike t
  walked : ∀ next, (∀ k m, m ∈ next k ↔ m ∈ s.prospective n c.vars k) →
    ∃ names, recalculationOrder next (n :: s.graph.dependees.keys) n = .ok names ∧
      (s.commit n c).Schedule n names

section

variable {s : Sheet} (hs : s.Sound) {n : String} {c : Content}
  (hloop : ¬TransGen (Follows (s.prospective n c.vars)) n n)
include hs hloop

theorem Sound.alike_of_schedule (hs' : s.Tidy) {name raw : String} (hn : s.cellName name = .ok n)
    (hc : Content.classify s.rules.naming raw = .ok c) {names names' : List String}
    (h : (s.commit n c).Schedule n names) (h' : (s.commit n c).Schedule n names') :
    ((s.commit n c).recalculate names).Alike ((s.commit n c).recalculate names') := by
  have tidy := hs'.commit hn hc
  refine alike_of_contentOf (hs.recalculate_commit hloop h) (hs.recalculate_commit hloop h')
    (tidy.recalculate names) (tidy.recalculate names') fun m => ?_
  rw [contentOf_recalculate, contentOf_recalculate]

theorem Sound.exists_schedule {next : String → List String}
    (hnext : ∀ k m, m ∈ next k ↔ m ∈ s.prospective n c.vars k) :
    ∃ names, recalculationOrder next (n :: s.graph.dependees.keys) n = .ok names ∧
      (s.commit n c).Schedule n names := by
  have edges : Follows next = Follows (s.prospective n c.vars) := by
    funext u v
    exact propext (hnext u v)
  have answer := walk_answers hs.consistent edges
  cases hr : recalculationOrder next (n :: s.graph.dependees.keys) n with
  | error loop =>
    rw [hr] at answer
    exact absurd (edges ▸ answer.transGen) hloop
  | ok names =>
    rw [hr] at answer
    exact ⟨names, rfl, hs.schedule_of_walk hloop edges answer.2⟩

end

/-- An accepted edit leaves what any list leaves that holds its cell and all that depends on it, each cell
after those it names. That which it is recalculated by is one, and so is any that the walk could give. -/
theorem set_confluent (rules : Rules) (edits : List (String × String)) {name raw : String} {t : Sheet}
    {order : List String} (h : (afterEdits rules edits).set name raw = .ok (t, order)) :
    ∃ n c, (afterEdits rules edits).cellName name = .ok n ∧
      Content.classify rules.naming raw = .ok c ∧
      t = ((afterEdits rules edits).commit n c).recalculate order ∧
      ((afterEdits rules edits).commit n c).Schedule n order ∧
      (afterEdits rules edits).Confluent n c t := by
  have hs := afterEdits_sound rules edits
  obtain ⟨n, c, hn, hc, rfl, hloop, hschedule⟩ := hs.schedule_set h
  have alike (names : List String) (hnames : ((afterEdits rules edits).commit n c).Schedule n names) :=
    hs.alike_of_schedule hloop (afterEdits_tidy rules edits) hn hc hnames hschedule
  rw [rules_afterEdits] at hc
  exact ⟨n, c, hn, hc, rfl, hschedule, (hs.recalculate_commit hloop hschedule).fromScratch, alike,
    fun next hnext => hs.exists_schedule hloop hnext⟩

theorem set_confluent_siblings : ∃ t,
    (afterEdits .standard [("B1", "=A1"), ("C1", "=A1")]).set "A1" "x" = .ok (t, ["A1", "B1", "C1"]) ∧
      (((afterEdits .standard [("B1", "=A1"), ("C1", "=A1")]).commit "A1" (.text "x")).recalculate
        ["A1", "C1", "B1"]).Alike t := by
  have names_A1 : Content.classify Rules.standard.naming "=A1" =
      .ok (.formula ⟨[.var "A1"], "A1"⟩) := Content.classify_var "A1" (by decide) rfl (by decide)
  have same : afterEdits .standard [("B1", "=A1"), ("C1", "=A1")] =
      ((((new .standard).commit "B1" (.formula ⟨[.var "A1"], "A1"⟩)).recalculate ["B1"]).commit "C1"
        (.formula ⟨[.var "A1"], "A1"⟩)).recalculate ["C1"] := by
    rw [afterEdits, List.foldl_cons, attempt_of_valid (n := "B1") (by decide) names_A1 rfl]
    exact attempt_of_valid (by decide) names_A1 rfl
  have name_A1 : (afterEdits .standard [("B1", "=A1"), ("C1", "=A1")]).cellName "A1" = .ok "A1" := by
    rw [cellName_afterEdits]
    decide
  have order : (afterEdits .standard [("B1", "=A1"), ("C1", "=A1")]).prospectiveOrder "A1"
      (Content.text "x").vars = .ok ["A1", "B1", "C1"] := by
    rw [same]
    rfl
  have edit : (afterEdits .standard [("B1", "=A1"), ("C1", "=A1")]).set "A1" "x" = .ok
      (((afterEdits .standard [("B1", "=A1"), ("C1", "=A1")]).commit "A1" (.text "x")).recalculate
        ["A1", "B1", "C1"], ["A1", "B1", "C1"]) := by
    rw [set_of_valid (c := .text "x") _ name_A1 (by rw [rules_afterEdits]; rfl), order]
  obtain ⟨n, c, hn, hc, -, -, confluent⟩ :=
    set_confluent .standard [("B1", "=A1"), ("C1", "=A1")] edit
  obtain rfl : "A1" = n := Except.ok.inj (name_A1.symm.trans hn)
  obtain rfl : Content.text "x" = c := Except.ok.inj hc
  obtain ⟨names, hnames, hschedule⟩ := confluent.walked
    (fun k => ((afterEdits .standard [("B1", "=A1"), ("C1", "=A1")]).prospective "A1" [] k).reverse)
    fun k m => List.mem_reverse
  obtain rfl : ["A1", "C1", "B1"] = names := by
    rw [same] at hnames
    exact Except.ok.inj hnames
  exact ⟨_, edit, confluent.alike _ hschedule⟩

end Worksheet.Sheet
