import Worksheet.Batch.Listing
import Worksheet.Proofs.Sheet.History
import Worksheet.Proofs.Sheet.Loading

set_option autoImplicit false

/-!
# Sheets that agree

Sheets with the same rules and contents take the same edits and go on agreeing. A sheet that was written
out and opened again agrees with the one that was written.
-/
namespace Worksheet.Sheet

/-- Two sheets between edits that have the same rules and contents. -/
structure Agree (s t : Sheet) : Prop where
  sound : s.Sound
  sound' : t.Sound
  tidy : s.Tidy
  tidy' : t.Tidy
  rules : s.rules = t.rules
  contentOf : ∀ n, s.contentOf n = t.contentOf n

theorem Sound.attempt {s : Sheet} (h : s.Sound) (edit : String × String) : (s.attempt edit).Sound := by
  rw [attempt_eq]
  split
  · rename_i t order he
    exact h.set he
  · exact h

theorem Tidy.attempt {s : Sheet} (h : s.Tidy) (edit : String × String) : (s.attempt edit).Tidy := by
  rw [attempt_eq]
  split
  · rename_i t order he
    obtain ⟨n, c, hn, hc, -, rfl⟩ := set_eq_ok he
    exact (h.commit hn hc).recalculate order
  · exact h

namespace Agree

variable {s t : Sheet} (h : Agree s t)
include h

theorem accepts_iff (edit : String × String) : s.Accepts edit ↔ t.Accepts edit :=
  ⟨AgreeOff.accepts h.sound h.sound' h.rules fun n _ => h.contentOf n,
    AgreeOff.accepts h.sound' h.sound h.rules.symm fun n _ => (h.contentOf n).symm⟩

theorem attempt (edit : String × String) : Agree (s.attempt edit) (t.attempt edit) := by
  refine ⟨h.sound.attempt edit, h.sound'.attempt edit, h.tidy.attempt edit, h.tidy'.attempt edit, ?_,
    fun n => ?_⟩
  · rw [rules_attempt, rules_attempt, h.rules]
  · by_cases hs : s.Accepts edit
    · obtain ⟨c, hc, hcontent⟩ := contentOf_attempt hs
      obtain ⟨d, hd, hcontent'⟩ := contentOf_attempt ((h.accepts_iff edit).1 hs)
      rw [← h.rules, hc] at hd
      rw [hcontent, hcontent', ← h.rules, Except.ok.inj hd, h.contentOf]
    · rw [attempt_of_not_accepts hs, attempt_of_not_accepts (mt (h.accepts_iff edit).2 hs)]
      exact h.contentOf n

theorem listing : s.listing = t.listing := by
  have alike := alike_of_contentOf h.sound h.sound' h.tidy h.tidy' h.contentOf
  have entry : s.listingEntry = t.listingEntry := by
    funext n
    unfold listingEntry
    rw [alike.contentOf, alike.valueOf]
  unfold Sheet.listing
  rw [alike.names, entry]

end Agree

theorem ofText_encode {s : Sheet} (hs : s.Sound) (hs' : s.Tidy) (format : FileFormat) :
    ∃ t, ofText format s.rules (format.encode s.snapshot) = .ok t ∧ Agree t s := by
  have cells : ∀ r ∈ s.snapshot.records, Cell.isCellName r.name = true :=
    fun r hr => (hs'.describes hr).1
  obtain ⟨t, ht, hcontent⟩ := foldlM_restore_snapshot hs hs'
  obtain ⟨sound, tidy⟩ := restored_sound ht
  have rules : t.rules = s.rules := by
    rw [← foldl_attempt_of_restore ht]
    exact rules_afterEdits s.rules _
  refine ⟨{ t with changed := false }, ?_, ?_⟩
  · unfold ofText
    rw [format.decode_encode_of_cells cells]
    exact (ofSnapshot_eq_ok rfl).2 ⟨t, ht, rfl⟩
  · exact ⟨⟨sound.consistent, sound.follows_iff, sound.acyclic, sound.fromScratch⟩, hs,
      ⟨tidy.nodup, tidy.nonempty, tidy.named, tidy.written⟩, hs', rules, hcontent⟩

end Worksheet.Sheet
