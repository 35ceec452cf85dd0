import Worksheet.Proofs.Formula.Variables
import Worksheet.Proofs.Sheet.Edit

set_option autoImplicit false

/-!
# Recalculation

The values in a sheet are those that its contents have from scratch. An edit recalculates only what it
lists, but that is all that the edit can change, and each listed cell comes after those it names.
-/
namespace Worksheet
open Relation

/-- The value that contents give to a cell, worked out from nothing but the contents: a formula has the
result of its evaluation with the numbers that the cells it names have in the same way. A derivation is
finite, so no cell gets a value by way of itself. -/
inductive FromScratch (contents : String → Content) : String → Value → Prop where
  | number {name : String} {x : Float} (h : contents name = .number x) :
      FromScratch contents name (.number x)
  | text {name t : String} (h : contents name = .text t) : FromScratch contents name (.text t)
  | formula {name : String} {f : Formula} (values : String → Value)
      (h : contents name = .formula f) (hv : ∀ v ∈ f.vars, FromScratch contents v (values v)) :
      FromScratch contents name (.ofResult (f.value fun v => (values v).number?))

theorem FromScratch.unique {contents : String → Content} {name : String} {x y : Value}
    (hx : FromScratch contents name x) (hy : FromScratch contents name y) : x = y := by
  induction hx generalizing y with
  | number h =>
    cases hy with
    | number h' => exact congrArg Value.number (Content.number.inj (h.symm.trans h'))
    | text h' | formula _ h' _ => exact absurd (h.symm.trans h') (by simp)
  | text h =>
    cases hy with
    | text h' => exact congrArg Value.text (Content.text.inj (h.symm.trans h'))
    | number h' | formula _ h' _ => exact absurd (h.symm.trans h') (by simp)
  | @formula name f values h _ ih =>
    cases hy with
    | number h' | text h' => exact absurd (h.symm.trans h') (by simp)
    | @formula _ f' values' h' hv' =>
      obtain rfl : f = f' := Content.formula.inj (h.symm.trans h')
      refine congrArg Value.ofResult (f.value_congr fun v hv => ?_)
      rw [ih v hv (hv' v hv)]

namespace Sheet

/-- What holds of a sheet between two edits. -/
structure Sound (s : Sheet) : Prop where
  consistent : s.graph.Consistent
  follows_iff : ∀ v n, Follows s.graph.dependentsOf v n ↔ v ∈ (s.contentOf n).vars
  acyclic : ∀ n, ¬TransGen (Follows s.graph.dependentsOf) n n
  fromScratch : ∀ n, FromScratch s.contentOf n (s.valueOf n)

theorem new_sound (rules : Rules) : (new rules).Sound := by
  have no_edge (v n : String) : ¬Follows (new rules).graph.dependentsOf v n := List.not_mem_nil
  refine ⟨Graph.empty_consistent, fun v n => ?_, fun n h => ?_, fun n => .text rfl⟩
  · exact iff_of_false (no_edge v n) List.not_mem_nil
  · obtain ⟨v, -, hv⟩ := TransGen.tail'_iff.1 h
    exact no_edge v n hv

/-- The value of a cell is the one its contents have from scratch. -/
def Right (s : Sheet) (n : String) : Prop := FromScratch s.contentOf n (s.valueOf n)

theorem right_of_evaluate {s : Sheet} {n : String} {x : Value}
    (hv : ∀ v ∈ (s.contentOf n).vars, s.Right v) (hx : x = s.evaluate (s.contentOf n)) :
    FromScratch s.contentOf n x := by
  cases hc : s.contentOf n with
  | number y =>
    rw [hx, hc]
    exact .number hc
  | text t =>
    rw [hx, hc]
    exact .text hc
  | formula f =>
    rw [hx, hc, evaluate_formula]
    rw [hc] at hv
    exact .formula s.valueOf hc hv

theorem right_recalculateCell {s : Sheet} {n : String}
    (hv : ∀ v ∈ (s.contentOf n).vars, s.Right v) {m : String} (hm : m = n ∨ s.Right m) :
    (s.recalculateCell n).Right m := by
  have same : (s.recalculateCell n).contentOf = s.contentOf := by
    funext k
    exact contentOf_recalculateCell s n k
  unfold Right
  rw [same, valueOf_recalculateCell]
  by_cases h : m = n
  · subst h
    rw [if_pos rfl]
    exact right_of_evaluate hv rfl
  · rw [if_neg h]
    exact hm.resolve_left h

/-- Recalculating in an order where each cell comes after those it names, unless these are right
already, makes every listed cell right and keeps the others right. -/
theorem right_recalculate {s : Sheet} {order : List String}
    (h : ∀ a u b, order = a ++ u :: b → ∀ v ∈ (s.contentOf u).vars, v ∈ a ∨ s.Right v)
    {m : String} (hm : m ∈ order ∨ s.Right m) : (s.recalculate order).Right m := by
  -- on the order: its first cell names right cells only, and is right once it is recalculated
  induction order generalizing s with
  | nil => exact hm.resolve_left List.not_mem_nil
  | cons n order ih =>
    have first {k : String} (hk : k = n ∨ s.Right k) : (s.recalculateCell n).Right k :=
      right_recalculateCell (fun v hv => (h [] n order rfl v hv).resolve_left List.not_mem_nil) hk
    refine ih (s := s.recalculateCell n) ?_ ?_
    · intro a u b hab v hv
      rw [contentOf_recalculateCell] at hv
      rcases h (n :: a) u b (by rw [hab]; rfl) v hv with ha | hr
      · rcases List.mem_cons.1 ha with rfl | ha
        · exact .inr (first (.inl rfl))
        · exact .inl ha
      · exact .inr (first (.inr hr))
    · rcases hm with hm | hr
      · rcases List.mem_cons.1 hm with rfl | hm
        · exact .inr (first (.inl rfl))
        · exact .inl hm
      · exact .inr (first (.inr hr))

/-- A change of one cell leaves alone the values of all cells that it does not lead to. -/
theorem FromScratch.of_not_reached {s : Sheet} (hs : s.Sound) {n m : String} {contents : String → Content}
    (hc : ∀ k, k ≠ n → contents k = s.contentOf k)
    (hm : ¬ReflTransGen (Follows s.graph.dependentsOf) n m) {x : Value}
    (h : FromScratch s.contentOf m x) : FromScratch contents m x := by
  have other {k : String} (hk : ¬ReflTransGen (Follows s.graph.dependentsOf) n k) :
      contents k = s.contentOf k := hc k fun he => hk (he ▸ .refl)
  induction h with
  | number h => exact .number ((other hm).trans h)
  | text h => exact .text ((other hm).trans h)
  | @formula k f values h _ ih =>
    refine .formula values ((other hm).trans h) fun v hv => ih v hv fun hr => hm (hr.tail ?_)
    refine (hs.follows_iff v k).2 ?_
    rw [h]
    exact hv

theorem Sound.right_commit {s : Sheet} (hs : s.Sound) {n m : String} (c : Content)
    (hm : ¬ReflTransGen (Follows s.graph.dependentsOf) n m) : (s.commit n c).Right m := by
  have hne : m ≠ n := fun he => hm (he ▸ .refl)
  unfold Right
  rw [valueOf_commit s c hne]
  refine FromScratch.of_not_reached hs (n := n) (fun k hk => ?_) hm (hs.fromScratch m)
  rw [contentOf_commit, if_neg hk]

theorem Sound.follows_commit_iff {s : Sheet} (hs : s.Sound) (n : String) (c : Content)
    (v m : String) : Follows (s.commit n c).graph.dependentsOf v m ↔
      v ∈ ((s.commit n c).contentOf m).vars := by
  rw [follows_commit hs.consistent, follows_prospective, contentOf_commit]
  by_cases h : m = n
  · simp [h]
  · simp [h, hs.follows_iff v m]

/-- A list by which a change of `n` can be recalculated: all that the change reaches, and each cell after
those of its direct dependees that are listed. Other cells may be listed too, and cells more than once. -/
structure Schedule (s : Sheet) (n : String) (names : List String) : Prop where
  covers : ∀ m, ReflTransGen (Follows s.graph.dependentsOf) n m → m ∈ names
  sorted : ∀ a u b, names = a ++ u :: b → ∀ v ∈ names, v ∈ s.graph.dependeesOf u → v ∈ a

theorem schedule_of_isOrder {s : Sheet} (hs : s.graph.Consistent)
    (hloop : ∀ m, ¬TransGen (Follows s.graph.dependentsOf) m m) {next : String → List String}
    (hnext : Follows next = Follows s.graph.dependentsOf) {n : String} {order : List String}
    (h : IsOrder next n order) : s.Schedule n order := by
  rw [← hnext] at hloop
  refine ⟨fun m hm => (h.mem_iff m).2 (hnext ▸ hm), fun a u b hab v hv hvu => ?_⟩
  have hfollows : Follows next v u := by
    rw [hnext]
    exact (hs v u).2 hvu
  exact h.mem_before hloop hab hv hfollows

section commit

variable {s : Sheet} (hs : s.Sound) {n : String} {c : Content}
  (hloop : ¬TransGen (Follows (s.prospective n c.vars)) n n)
include hs hloop

theorem Sound.acyclic_commit (m : String) :
    ¬TransGen (Follows (s.commit n c).graph.dependentsOf) m m := by
  rw [follows_commit_eq hs.consistent]
  exact fun hm => hloop (transGen_prospective_of_loop hs.acyclic hm)

theorem Sound.schedule_of_walk {next : String → List String}
    (hnext : Follows next = Follows (s.prospective n c.vars)) {order : List String}
    (h : IsOrder next n order) : (s.commit n c).Schedule n order := by
  rw [← follows_commit_eq hs.consistent] at hnext
  exact schedule_of_isOrder (hs.consistent.replaceDependees n c.vars) (hs.acyclic_commit hloop) hnext h

theorem Sound.recalculate_commit {names : List String} (h : (s.commit n c).Schedule n names) :
    ((s.commit n c).recalculate names).Sound := by
  have consistent : (s.commit n c).graph.Consistent := hs.consistent.replaceDependees n c.vars
  have reaches (m : String) : ReflTransGen (Follows (s.commit n c).graph.dependentsOf) n m ↔
      ReflTransGen (Follows s.graph.dependentsOf) n m := by
    rw [follows_commit_eq hs.consistent]
    exact reaches_prospective s n c.vars m
  have listed (m : String) : m ∈ names ∨ (s.commit n c).Right m := by
    by_cases hr : ReflTransGen (Follows s.graph.dependentsOf) n m
    · exact .inl (h.covers m ((reaches m).2 hr))
    · exact .inr (hs.right_commit c hr)
  refine ⟨?_, ?_, ?_, fun m => right_recalculate (fun a u b hab v hv => ?_) (listed m)⟩
  · rw [graph_recalculate]
    exact consistent
  · intro v m
    rw [graph_recalculate, contentOf_recalculate]
    exact hs.follows_commit_iff n c v m
  · rw [graph_recalculate]
    exact hs.acyclic_commit hloop
  · refine (listed v).imp (fun hmem => h.sorted a u b hab v hmem ?_) id
    exact (consistent v u).1 ((hs.follows_commit_iff n c v u).2 hv)

end commit

theorem Sound.schedule_set {s s' : Sheet} (hs : s.Sound) {name raw : String} {order : List String}
    (h : s.set name raw = .ok (s', order)) : ∃ n c, s.cellName name = .ok n ∧
      Content.classify s.rules.naming raw = .ok c ∧ s' = (s.commit n c).recalculate order ∧
      ¬TransGen (Follows (s.prospective n c.vars)) n n ∧ (s.commit n c).Schedule n order := by
  obtain ⟨n, c, hn, hc, ho, rfl⟩ := set_eq_ok h
  have answer := prospectiveOrder_answers hs.consistent n c.vars
  rw [ho] at answer
  exact ⟨n, c, hn, hc, rfl, answer.1, hs.schedule_of_walk answer.1 rfl answer.2⟩

theorem Sound.set {s s' : Sheet} (hs : s.Sound) {name raw : String} {order : List String}
    (h : s.set name raw = .ok (s', order)) : s'.Sound := by
  obtain ⟨n, c, -, -, rfl, hloop, hschedule⟩ := hs.schedule_set h
  exact hs.recalculate_commit hloop hschedule

theorem afterEdits_sound (rules : Rules) (edits : List (String × String)) :
    (afterEdits rules edits).Sound :=
  afterEdits_induction rules (new_sound rules) (fun _ _ _ _ _ hs h => hs.set h) edits

/-- After any edits, refused ones among them, each cell has the one value that the contents of the sheet
give it from scratch. -/
theorem fromScratch_iff (rules : Rules) (edits : List (String × String)) (name : String)
    (x : Value) : FromScratch (afterEdits rules edits).contentOf name x ↔
      (afterEdits rules edits).valueOf name = x := by
  have h := (afterEdits_sound rules edits).fromScratch name
  exact ⟨h.unique, fun hx => hx ▸ h⟩

end Sheet
end Worksheet
