import Worksheet.Proofs.Sheet.Tidy
import Worksheet.Proofs.Snapshot.Format
import Worksheet.Sheet.Saved

set_option autoImplicit false

/-!
# Reopened sheets

A sheet that is saved and opened again is the same sheet. Its cells come back in sheet order, where a
formula may come before the cells it names; at each time, though, the edges are among those of the
whole sheet, which has no loop.
-/
namespace Worksheet.Sheet
open Relation

def Names (contents : String → Content) (v n : String) : Prop := v ∈ (contents n).vars

theorem Sound.follows_eq {s : Sheet} (hs : s.Sound) :
    Follows s.graph.dependentsOf = Names s.contentOf := by
  funext v n
  exact propext (hs.follows_iff v n)

def Describes (rules : Rules) (contents : String → Content) (r : Record) : Prop :=
  (new rules).cellName r.name = .ok (rules.normalize r.name) ∧
    Content.classify rules.naming r.contents = .ok (contents (rules.normalize r.name))

section restoring

variable {contents : String → Content} (hloop : ∀ n, ¬TransGen (Names contents) n n)
include hloop

theorem restore_of_acyclic {s : Sheet} (hs : s.Sound)
    (hpart : ∀ m, s.contentOf m = contents m ∨ s.contentOf m = .empty) {r : Record}
    (hr : Describes s.rules contents r) : ∃ t, s.restore r = .ok t ∧ t.Sound ∧ t.rules = s.rules ∧
      ∀ m, t.contentOf m =
        if m = s.rules.normalize r.name then contents m else s.contentOf m := by
  obtain ⟨hn, hc⟩ := hr
  generalize hname : s.rules.normalize r.name = n at hn hc ⊢
  have valid : s.cellName r.name = .ok n := hn
  rcases set_answers hs.consistent valid hc with ⟨order, result, -, -⟩ | ⟨loop, -, hclosed⟩
  · refine ⟨_, ?_, hs.set result, rules_recalculate _ _, fun m => ?_⟩
    · unfold restore
      rw [result]
    · rw [contentOf_recalculate, contentOf_commit]
      by_cases hm : m = n
      · rw [if_pos hm, if_pos hm, hm]
      · rw [if_neg hm, if_neg hm]
  · have edge {u v : String} (h : Follows (s.prospective n (contents n).vars) u v) :
        Names contents u v := by
      rcases (follows_prospective s n _ u v).1 h with ⟨rfl, hu⟩ | ⟨-, hold⟩
      · exact hu
      · have hu := (hs.follows_iff u v).1 hold
        rcases hpart v with hv | hv
        · rwa [hv] at hu
        · rw [hv] at hu
          cases hu
    exact absurd (hclosed.transGen.lift id fun _ _ => edge) (hloop n)

theorem restore_records {s : Sheet} (hs : s.Sound)
    (hpart : ∀ m, s.contentOf m = contents m ∨ s.contentOf m = .empty) {records : List Record}
    (hr : ∀ r ∈ records, Describes s.rules contents r) :
    ∃ t, records.foldlM restore s = .ok t ∧ ∀ m, t.contentOf m =
      if m ∈ records.map (fun r => s.rules.normalize r.name) then contents m
      else s.contentOf m := by
  -- on the records: each sheet on the way has a part of the contents and the rest empty
  induction records generalizing s with
  | nil => exact ⟨s, rfl, fun m => rfl⟩
  | cons r records ih =>
    obtain ⟨u, hu, hsound, hrules, hcontent⟩ :=
      restore_of_acyclic hloop hs hpart (hr r List.mem_cons_self)
    have part (m : String) : u.contentOf m = contents m ∨ u.contentOf m = .empty := by
      rw [hcontent]
      by_cases hm : m = s.rules.normalize r.name
      · exact .inl (if_pos hm)
      · rw [if_neg hm]
        exact hpart m
    obtain ⟨t, ht, hall⟩ := ih hsound part fun r' hr' => by
      rw [hrules]
      exact hr r' (List.mem_cons_of_mem r hr')
    refine ⟨t, ?_, fun m => ?_⟩
    · rw [List.foldlM_cons, hu]
      exact ht
    · rw [hall, hrules, hcontent, List.map_cons]
      by_cases hm : m = s.rules.normalize r.name
      · simp [hm]
      · simp [hm]

end restoring

theorem attempt_of_restore {s t : Sheet} {r : Record} (h : s.restore r = .ok t) :
    s.attempt (r.name, r.contents) = t := by
  unfold restore at h
  rw [attempt_eq]
  split at h
  · rename_i he
    simpa [he] using h
  · cases h

theorem foldl_attempt_of_restore {s t : Sheet} {records : List Record}
    (h : records.foldlM restore s = .ok t) :
    (records.map fun r => (r.name, r.contents)).foldl attempt s = t := by
  induction records generalizing s with
  | nil => exact Except.ok.inj h
  | cons r records ih =>
    rw [List.foldlM_cons] at h
    cases hr : s.restore r with
    | error e =>
      rw [hr] at h
      cases h
    | ok u =>
      rw [hr] at h
      rw [List.map_cons, List.foldl_cons, attempt_of_restore hr]
      exact ih h

theorem Tidy.describes {s : Sheet} (h : s.Tidy) {r : Record} (hr : r ∈ s.snapshot.records) :
    Cell.isCellName r.name = true ∧ s.rules.normalize r.name = r.name ∧
      Describes s.rules s.contentOf r := by
  obtain ⟨n, hn, rfl⟩ := List.mem_map.1 hr
  have hkey : n ∈ s.cells.keys := List.mem_mergeSort.1 hn
  have named := h.named n hkey
  obtain ⟨hnormal, haccepts⟩ := cellName_eq_ok.1 named
  obtain ⟨raw, hraw⟩ := h.written n
  have hcell : Cell.isCellName n = true := by
    unfold Rules.acceptsCell at haccepts
    exact (Bool.and_eq_true_iff.1 haccepts).1
  have hinput := Content.classify_input s.rules.naming_stable hraw
  refine ⟨hcell, hnormal, ?_, ?_⟩
  · dsimp only
    rw [hnormal]
    exact named
  · dsimp only
    rw [hnormal]
    exact hinput

theorem foldlM_restore_snapshot {s : Sheet} (hs : s.Sound) (hs' : s.Tidy) :
    ∃ t, s.snapshot.records.foldlM restore (new s.rules) = .ok t ∧
      ∀ n, t.contentOf n = s.contentOf n := by
  have hloop : ∀ n, ¬TransGen (Names s.contentOf) n n := hs.follows_eq ▸ hs.acyclic
  have listed : s.snapshot.records.map (fun r => s.rules.normalize r.name) = s.names := by
    rw [List.map_congr_left fun r hr => (hs'.describes hr).2.1]
    unfold snapshot
    rw [List.map_map]
    exact List.map_id _
  obtain ⟨t, ht, hall⟩ := restore_records hloop (new_sound s.rules) (fun _ => .inr rfl)
    fun r hr => (hs'.describes hr).2.2
  refine ⟨t, ht, fun n => (hall n).trans ?_⟩
  change (if n ∈ s.snapshot.records.map (fun r => s.rules.normalize r.name) then s.contentOf n
    else .empty) = s.contentOf n
  rw [listed]
  by_cases hn : n ∈ s.names
  · rw [if_pos hn]
  · rw [if_neg hn]
    refine (Content.eq_empty ?_).symm
    rw [hs'.mem_names_iff, Bool.not_eq_false] at hn
    exact hn

/-- The text of a saved sheet is read back as its snapshot, and the snapshot opens as a sheet that
holds the same and counts as unchanged. -/
theorem saved_reopens (rules : Rules) (edits : List (String × String)) (format : FileFormat) :
    format.decode (format.encode (afterEdits rules edits).snapshot) =
        .ok (afterEdits rules edits).snapshot ∧
      format.decodeVersion (format.encode (afterEdits rules edits).snapshot) =
        .ok (afterEdits rules edits).version ∧
      ∃ s, ofSnapshot rules (afterEdits rules edits).snapshot = .ok s ∧
        s.Alike (afterEdits rules edits) ∧ s.changed = false := by
  have hs := afterEdits_sound rules edits
  have hs' := afterEdits_tidy rules edits
  have hrules := rules_afterEdits rules edits
  generalize afterEdits rules edits = s at hs hs' hrules ⊢
  subst hrules
  have cells : ∀ r ∈ s.snapshot.records, Cell.isCellName r.name = true :=
    fun r hr => (hs'.describes hr).1
  refine ⟨format.decode_encode_of_cells cells, format.decodeVersion_encode_of_cells cells, ?_⟩
  obtain ⟨t, ht, hcontent⟩ := foldlM_restore_snapshot hs hs'
  refine ⟨{ t with changed := false }, ?_, ?_, rfl⟩
  · have version : s.snapshot.version = s.rules.version := rfl
    unfold ofSnapshot
    rw [if_pos version, ht]
    rfl
  · have edited := foldl_attempt_of_restore ht
    have same : t.Alike s := by
      refine alike_of_contentOf ?_ hs ?_ hs' hcontent
      · rw [← edited]
        exact afterEdits_sound s.rules _
      · rw [← edited]
        exact afterEdits_tidy s.rules _
    exact ⟨same.names, same.contentOf, same.valueOf, same.dependents, same.dependees⟩

end Worksheet.Sheet
