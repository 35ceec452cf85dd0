import Worksheet.Proofs.Sheet.Loading

set_option autoImplicit false

/-!
# Reachable sheets

What holds of every sheet that can be reached: one that was made new or loaded, and what is made of it
by edits and by saving.
-/
namespace Worksheet.Sheet

/-- The sheets that can be reached under given rules. A refused edit leaves a sheet as it is. -/
inductive Reachable (rules : Rules) : Sheet → Prop where
  | new : Reachable rules (new rules)
  | loaded {snapshot : Snapshot} {s : Sheet} (h : ofSnapshot rules snapshot = .ok s) :
      Reachable rules s
  | edited {s t : Sheet} {name raw : String} {order : List String} (hs : Reachable rules s)
      (h : s.set name raw = .ok (t, order)) : Reachable rules t
  | saved {s : Sheet} (hs : Reachable rules s) : Reachable rules { s with changed := false }

theorem Sound.unchanged {s : Sheet} (h : s.Sound) : { s with changed := false }.Sound :=
  ⟨h.consistent, h.follows_iff, h.acyclic, h.fromScratch⟩

theorem Tidy.unchanged {s : Sheet} (h : s.Tidy) : { s with changed := false }.Tidy :=
  ⟨h.nodup, h.nonempty, h.named, h.written⟩

section reachable

variable {rules : Rules} {s : Sheet}

theorem restored_of_ofSnapshot {snapshot : Snapshot} (h : ofSnapshot rules snapshot = .ok s) :
    ∃ u, snapshot.records.foldlM restore (Sheet.new rules) = .ok u ∧
      { u with changed := false } = s := by
  by_cases hversion : snapshot.version = rules.version
  · exact (ofSnapshot_eq_ok hversion).1 h
  · unfold ofSnapshot at h
    rw [if_neg hversion] at h
    cases h

theorem Reachable.sound (h : Reachable rules s) : s.Sound := by
  induction h with
  | new => exact new_sound rules
  | loaded h =>
    obtain ⟨u, hu, rfl⟩ := restored_of_ofSnapshot h
    exact (restored_sound hu).1.unchanged
  | edited _ h ih => exact ih.set h
  | saved _ ih => exact ih.unchanged

theorem Reachable.tidy (h : Reachable rules s) : s.Tidy := by
  induction h with
  | new => exact new_tidy rules
  | loaded h =>
    obtain ⟨u, hu, rfl⟩ := restored_of_ofSnapshot h
    exact (restored_sound hu).2.unchanged
  | edited _ h ih =>
    obtain ⟨n, c, hn, hc, -, rfl⟩ := set_eq_ok h
    exact (ih.commit hn hc).recalculate _
  | saved _ ih => exact ih.unchanged

theorem reachable_afterEdits (rules : Rules) (edits : List (String × String)) :
    Reachable rules (afterEdits rules edits) :=
  afterEdits_induction rules .new (fun _ _ _ _ _ hs h => hs.edited h) edits

end reachable

end Worksheet.Sheet
