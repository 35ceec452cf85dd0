import Worksheet.Proofs.Graph.Order
import Worksheet.Sheet.Edit

set_option autoImplicit false

/-!
# What an edit does

The effect of the parts of an edit on contents, values and edges, each cell and edge by itself. The
edges that an edit is checked against are those that it then commits.
-/
namespace Worksheet
open Relation

/-- The value that the result of a formula stands for in a cell. -/
def Value.ofResult : Except Formula.EvalError Float → Value
  | .ok x => .number x
  | .error e => .error e

theorem Content.eq_empty {c : Content} (h : c.isEmpty) : c = .empty := by
  cases c with
  | text t => exact congrArg Content.text (String.isEmpty_iff.1 h)
  | number _ | formula _ => simp [Content.isEmpty] at h

namespace Sheet

def attempt (s : Sheet) (edit : String × String) : Sheet := (s.edit edit.1 edit.2).2

/-- The sheet that a sequence of attempted edits makes of a new one. -/
def afterEdits (rules : Rules) (edits : List (String × String)) : Sheet :=
  edits.foldl attempt (new rules)

section steps
variable {α β : Type}

theorem Step.run_bind (f : Step α) (g : α → Step β) (s : Sheet) :
    (f >>= g).run s = match f.run s with
      | (.ok a, t) => (g a).run t
      | (.error e, t) => (.error e, t) := by
  unfold ExceptT.run
  simp only [bind, ExceptT.bind, ExceptT.mk, StateT.bind, ExceptT.bindCont]
  cases f s with
  | mk o t => cases o <;> rfl

theorem Step.run_ofExcept (o : Except EditError α) (s : Sheet) :
    (MonadExcept.ofExcept o : Step α).run s = (o, s) := by
  cases o <;> rfl

end steps

theorem edit_eq (s : Sheet) (name raw : String) : s.edit name raw =
    match s.cellName name with
    | .error e => (.error e, s)
    | .ok n =>
      match Content.classify s.rules.naming raw with
      | .error fault => (.error (.formula fault), s)
      | .ok c =>
        match s.prospectiveOrder n c.vars with
        | .error loop => (.error (.circular n loop.path), s)
        | .ok order => (.ok order, (s.commit n c).recalculate order) := by
  change (setContents name raw).run s = _
  unfold setContents
  have hget : (get : Step Sheet).run s = (.ok s, s) := rfl
  simp only [Step.run_bind, Step.run_ofExcept, hget]
  cases s.cellName name with
  | error e => rfl
  | ok n =>
    dsimp only
    cases Content.classify s.rules.naming raw with
    | error fault => rfl
    | ok c =>
      dsimp only [Except.mapError]
      cases s.prospectiveOrder n c.vars with
      | error loop => rfl
      | ok order => rfl

theorem set_eq (s : Sheet) (name raw : String) : s.set name raw =
    match s.cellName name with
    | .error e => .error e
    | .ok n =>
      match Content.classify s.rules.naming raw with
      | .error fault => .error (.formula fault)
      | .ok c =>
        match s.prospectiveOrder n c.vars with
        | .error loop => .error (.circular n loop.path)
        | .ok order => .ok ((s.commit n c).recalculate order, order) := by
  unfold set
  rw [edit_eq]
  split
  · rfl
  split
  · rfl
  split <;> rfl

theorem edit_of_error {s : Sheet} {name raw : String} {e : EditError}
    (h : (s.edit name raw).1 = .error e) : (s.edit name raw).2 = s := by
  revert h
  rw [edit_eq]
  split
  · exact fun _ => rfl
  split
  · exact fun _ => rfl
  split
  · exact fun _ => rfl
  · intro h
    cases h

theorem attempt_eq (s : Sheet) (edit : String × String) : s.attempt edit =
    match s.set edit.1 edit.2 with
    | .ok (s', _) => s'
    | .error _ => s := by
  unfold attempt set
  cases h : (s.edit edit.1 edit.2).1 with
  | error e => exact edit_of_error h
  | ok order => rfl

theorem evaluate_formula (s : Sheet) (f : Formula) :
    s.evaluate (.formula f) = .ofResult (f.value s.numberOf) := by
  simp only [evaluate]
  cases f.value s.numberOf <;> rfl

section recalculation

theorem contentOf_recalculateCell (s : Sheet) (n m : String) :
    (s.recalculateCell n).contentOf m = s.contentOf m := by
  unfold recalculateCell
  cases hn : s.cells.get? n with
  | none => rfl
  | some cell =>
    simp only [contentOf, Table.get?_insert]
    by_cases h : m = n
    · simp [h, hn]
    · simp [h]

/-- Recalculating a cell evaluates its content; an absent cell has the value of empty content. -/
theorem valueOf_recalculateCell (s : Sheet) (n m : String) : (s.recalculateCell n).valueOf m =
    if m = n then s.evaluate (s.contentOf n) else s.valueOf m := by
  unfold recalculateCell
  cases hn : s.cells.get? n with
  | none =>
    by_cases h : m = n
    · simp [h, valueOf, contentOf, hn, evaluate, Content.empty, Value.empty]
    · simp [h]
  | some cell =>
    simp only [valueOf, contentOf, Table.get?_insert, hn]
    by_cases h : m = n <;> simp [h]

theorem rules_recalculateCell (s : Sheet) (n : String) : (s.recalculateCell n).rules = s.rules := by
  unfold recalculateCell
  split <;> rfl

theorem graph_recalculateCell (s : Sheet) (n : String) : (s.recalculateCell n).graph = s.graph := by
  unfold recalculateCell
  split <;> rfl

theorem recalculate_induction {p : Sheet → Prop} {s : Sheet} (hs : p s)
    (hcell : ∀ s n, p s → p (s.recalculateCell n)) (names : List String) :
    p (s.recalculate names) := by
  induction names generalizing s with
  | nil => exact hs
  | cons n names ih => exact ih (hcell s n hs)

theorem contentOf_recalculate (s : Sheet) (names : List String) (m : String) :
    (s.recalculate names).contentOf m = s.contentOf m :=
  recalculate_induction (p := fun t => t.contentOf m = s.contentOf m) rfl
    (fun t n h => (contentOf_recalculateCell t n m).trans h) names

theorem valueOf_recalculate (s : Sheet) {names : List String} {m : String} (hm : m ∉ names) :
    (s.recalculate names).valueOf m = s.valueOf m := by
  induction names generalizing s with
  | nil => rfl
  | cons n names ih =>
    rw [List.mem_cons, not_or] at hm
    have first := valueOf_recalculateCell s n m
    rw [if_neg hm.1] at first
    exact (ih (s.recalculateCell n) hm.2).trans first

theorem rules_recalculate (s : Sheet) (names : List String) :
    (s.recalculate names).rules = s.rules :=
  recalculate_induction (p := fun t => t.rules = s.rules) rfl
    (fun t n h => (rules_recalculateCell t n).trans h) names

theorem graph_recalculate (s : Sheet) (names : List String) :
    (s.recalculate names).graph = s.graph :=
  recalculate_induction (p := fun t => t.graph = s.graph) rfl
    (fun t n h => (graph_recalculateCell t n).trans h) names

end recalculation

section commit

theorem contentOf_commit (s : Sheet) (n : String) (c : Content) (m : String) :
    (s.commit n c).contentOf m = if m = n then c else s.contentOf m := by
  unfold commit contentOf
  by_cases hc : c.isEmpty
  · simp only [hc, ↓reduceIte, Table.get?_erase]
    by_cases h : m = n
    · simp [h, c.eq_empty hc]
    · simp [h]
  · simp only [hc, Bool.false_eq_true, ↓reduceIte, Table.get?_insert]
    by_cases h : m = n <;> simp [h]

theorem valueOf_commit (s : Sheet) {n m : String} (c : Content) (h : m ≠ n) :
    (s.commit n c).valueOf m = s.valueOf m := by
  unfold commit valueOf
  by_cases hc : c.isEmpty
  · simp [hc, Table.get?_erase, h]
  · simp [hc, Table.get?_insert, h]

theorem follows_prospective (s : Sheet) (n : String) (vars : List String) (u v : String) :
    Follows (s.prospective n vars) u v ↔
      (v = n ∧ u ∈ vars) ∨ (v ≠ n ∧ Follows s.graph.dependentsOf u v) := by
  unfold Follows prospective
  by_cases hu : u ∈ vars
  · simp [hu, and_comm]
  · simp [hu, and_comm]

theorem follows_commit {s : Sheet} (h : s.graph.Consistent) (n : String) (c : Content)
    (u v : String) : Follows (s.commit n c).graph.dependentsOf u v ↔
      Follows (s.prospective n c.vars) u v := by
  rw [follows_prospective]
  exact h.mem_dependentsOf_replaceDependees n c.vars u v

theorem follows_commit_eq {s : Sheet} (h : s.graph.Consistent) (n : String) (c : Content) :
    Follows (s.commit n c).graph.dependentsOf = Follows (s.prospective n c.vars) := by
  funext u v
  exact propext (follows_commit h n c u v)

theorem reaches_prospective (s : Sheet) (n : String) (vars : List String) (m : String) :
    ReflTransGen (Follows (s.prospective n vars)) n m ↔
      ReflTransGen (Follows s.graph.dependentsOf) n m := by
  constructor
  · intro h
    induction h with
    | refl => exact .refl
    | @tail u v _ huv ih =>
      rcases (follows_prospective s n vars u v).1 huv with ⟨rfl, -⟩ | ⟨-, huv⟩
      · exact .refl
      · exact ih.tail huv
  · intro h
    induction h with
    | refl => exact .refl
    | @tail u v _ huv ih =>
      by_cases hv : v = n
      · exact hv ▸ .refl
      · exact ih.tail ((follows_prospective s n vars u v).2 (.inr ⟨hv, huv⟩))

/-- New edges into a cell close a loop through it exactly when they start from a key that the cell
reaches already. -/
theorem transGen_prospective (s : Sheet) (n : String) (vars : List String) :
    TransGen (Follows (s.prospective n vars)) n n ↔
      ∃ v ∈ vars, ReflTransGen (Follows s.graph.dependentsOf) n v := by
  rw [TransGen.tail'_iff]
  constructor
  · rintro ⟨v, hv, hvn⟩
    have hvars : v ∈ vars := by
      simpa using (follows_prospective s n vars v n).1 hvn
    exact ⟨v, hvars, (reaches_prospective s n vars v).1 hv⟩
  · rintro ⟨v, hvars, hv⟩
    exact ⟨v, (reaches_prospective s n vars v).2 hv,
      (follows_prospective s n vars v n).2 (.inl ⟨rfl, hvars⟩)⟩

theorem transGen_prospective_of_loop {s : Sheet} {n : String} {vars : List String} {m : String}
    (hs : ∀ k, ¬TransGen (Follows s.graph.dependentsOf) k k)
    (h : TransGen (Follows (s.prospective n vars)) m m) :
    TransGen (Follows (s.prospective n vars)) n n := by
  have split {k : String} (hk : TransGen (Follows (s.prospective n vars)) m k) :
      TransGen (Follows s.graph.dependentsOf) m k ∨
        (TransGen (Follows (s.prospective n vars)) m n ∧
          ReflTransGen (Follows (s.prospective n vars)) n k) := by
    induction hk with
    | @single v hv =>
      rcases (follows_prospective s n vars m v).1 hv with ⟨rfl, -⟩ | ⟨-, hold⟩
      · exact .inr ⟨.single hv, .refl⟩
      · exact .inl (.single hold)
    | @tail u v hu huv ih =>
      rcases (follows_prospective s n vars u v).1 huv with ⟨rfl, -⟩ | ⟨-, hold⟩
      · exact .inr ⟨hu.tail huv, .refl⟩
      · exact ih.imp (·.tail hold) fun hi => ⟨hi.1, hi.2.tail huv⟩
  rcases split h with hm | ⟨hmn, hnm⟩
  · exact absurd hm (hs m)
  · exact .trans_right hnm hmn

/-- The walk of an edit, however it is told the direct dependents of the keys. -/
theorem walk_answers {s : Sheet} (h : s.graph.Consistent) {n : String} {vars : List String}
    {next : String → List String} (hnext : Follows next = Follows (s.prospective n vars)) :
    Answers next n (recalculationOrder next (n :: s.graph.dependees.keys) n) := by
  refine recalculationOrder_answers _ _ n fun k hk => ?_
  rw [hnext, reaches_prospective] at hk
  exact List.mem_cons_of_mem n (h.reaches_mem hk)

theorem prospectiveOrder_answers {s : Sheet} (h : s.graph.Consistent) (n : String)
    (vars : List String) : Answers (s.prospective n vars) n (s.prospectiveOrder n vars) :=
  walk_answers h rfl

end commit

theorem set_of_valid (s : Sheet) {name raw n : String} {c : Content} (hn : s.cellName name = .ok n)
    (hc : Content.classify s.rules.naming raw = .ok c) : s.set name raw =
      match s.prospectiveOrder n c.vars with
      | .error loop => .error (.circular n loop.path)
      | .ok order => .ok ((s.commit n c).recalculate order, order) := by
  cases ho : s.prospectiveOrder n c.vars with
  | error loop => simp only [set_eq, hn, hc, ho]
  | ok order => simp only [set_eq, hn, hc, ho]

theorem attempt_of_valid {s : Sheet} {name raw n : String} {c : Content} {order : List String}
    (hn : s.cellName name = .ok n) (hc : Content.classify s.rules.naming raw = .ok c)
    (ho : s.prospectiveOrder n c.vars = .ok order) :
    s.attempt (name, raw) = (s.commit n c).recalculate order := by
  rw [attempt_eq, set_of_valid s hn hc, ho]

/-- An edit with a valid name and content is made in an order that fits the edges it commits, or is
refused with a loop that they would close. -/
theorem set_answers {s : Sheet} (h : s.graph.Consistent) {name raw n : String} {c : Content}
    (hn : s.cellName name = .ok n) (hc : Content.classify s.rules.naming raw = .ok c) :
    (∃ order, s.set name raw = .ok ((s.commit n c).recalculate order, order) ∧
      ¬TransGen (Follows (s.prospective n c.vars)) n n ∧
      IsOrder (s.prospective n c.vars) n order) ∨
    ∃ loop : Loop String, s.set name raw = .error (.circular n loop.path) ∧
      IsLoop (s.prospective n c.vars) n loop.path := by
  have answer := prospectiveOrder_answers h n c.vars
  have result := set_of_valid s hn hc
  cases ho : s.prospectiveOrder n c.vars with
  | ok order =>
    rw [ho] at answer result
    exact .inl ⟨order, result, answer⟩
  | error loop =>
    rw [ho] at answer result
    exact .inr ⟨loop, result, answer⟩

theorem set_eq_ok {s s' : Sheet} {name raw : String} {order : List String}
    (h : s.set name raw = .ok (s', order)) : ∃ n c, s.cellName name = .ok n ∧
      Content.classify s.rules.naming raw = .ok c ∧ s.prospectiveOrder n c.vars = .ok order ∧
      s' = (s.commit n c).recalculate order := by
  rw [set_eq] at h
  cases hn : s.cellName name with
  | error e => simp [hn] at h
  | ok n =>
    cases hc : Content.classify s.rules.naming raw with
    | error fault => simp [hn, hc] at h
    | ok c =>
      cases ho : s.prospectiveOrder n c.vars with
      | error loop => simp [hn, hc, ho] at h
      | ok order' =>
        obtain ⟨rfl, rfl⟩ : (s.commit n c).recalculate order' = s' ∧ order' = order := by
          simpa [hn, hc, ho] using h
        exact ⟨n, c, rfl, rfl, ho, rfl⟩

theorem afterEdits_induction {p : Sheet → Prop} (rules : Rules) (hnew : p (new rules))
    (hset : ∀ s s' name raw order, p s → s.set name raw = .ok (s', order) → p s')
    (edits : List (String × String)) : p (afterEdits rules edits) := by
  have step : ∀ s, p s → p (edits.foldl attempt s) := by
    induction edits with
    | nil => exact fun s hs => hs
    | cons e edits ih =>
      intro s hs
      refine ih _ ?_
      rw [attempt_eq]
      split
      · rename_i s' order he
        exact hset s s' e.1 e.2 order hs he
      · exact hs
  exact step _ hnew

theorem rules_afterEdits (rules : Rules) (edits : List (String × String)) :
    (afterEdits rules edits).rules = rules := by
  refine afterEdits_induction (p := fun s => s.rules = rules) rules rfl ?_ edits
  intro s s' name raw order hs h
  obtain ⟨n, c, -, -, -, rfl⟩ := set_eq_ok h
  exact (rules_recalculate _ _).trans hs

theorem cellName_afterEdits (rules : Rules) (edits : List (String × String)) (name : String) :
    (afterEdits rules edits).cellName name = (new rules).cellName name := by
  rw [cellName, rules_afterEdits]
  rfl

end Sheet
end Worksheet
