import Worksheet.Text.Quoted

set_option autoImplicit false

/-!
# Escaped texts stay on one line

An escaped text has no character below the space, and so neither a line end nor a tab.
-/
namespace Worksheet.Text

/-- No character has a code below that of the space. -/
def Flat (cs : List Char) : Prop := ∀ c ∈ cs, 32 ≤ c.toNat

instance : DecidablePred Flat := fun cs => List.decidableBAll (fun c : Char => 32 ≤ c.toNat) cs

theorem Flat.append {cs ds : List Char} (hcs : Flat cs) (hds : Flat ds) : Flat (cs ++ ds) := by
  intro c hc
  rcases List.mem_append.1 hc with hc | hc
  · exact hcs c hc
  · exact hds c hc

theorem Flat.not_mem {cs : List Char} (h : Flat cs) {c : Char} (hc : c.toNat < 32) : c ∉ cs := by
  intro hmem
  have hcode := h c hmem
  omega

theorem flat_toDigits (n : Nat) : Flat (Nat.toDigits 16 n) := by
  have hdigit : ∀ k < 16, 32 ≤ (Nat.digitChar k).toNat := by decide
  induction n using Nat.strongRecOn with
  | ind n ih =>
    rw [Nat.toDigits_eq_if (by decide)]
    split
    · rename_i hn
      exact fun c hc => List.mem_singleton.1 hc ▸ hdigit n hn
    · rename_i hn
      refine (ih (n / 16) (by omega)).append fun c hc => ?_
      exact List.mem_singleton.1 hc ▸ hdigit (n % 16) (Nat.mod_lt n (by decide))

theorem flat_numericEscape (c : Char) : Flat (numericEscape c) :=
  (Flat.append (by decide) (flat_toDigits c.toNat)).append (by decide)

theorem isPrintable_flat {c : Char} (h : isPrintable c = true) : 32 ≤ c.toNat := by
  unfold isPrintable at h
  split at h
  · exact of_decide_eq_true h
  · omega

theorem flat_escapeChar (extenders apostrophes : Bool) (c : Char) :
    Flat (escapeChar extenders apostrophes c) := by
  unfold escapeChar
  split
  · decide
  split
  · decide
  split
  · decide
  split
  · decide
  split
  · rename_i hc
    intro d hd
    rcases hc with rfl | rfl | ⟨rfl, -⟩
    · exact (by decide : Flat ['\\', '\\']) d hd
    · exact (by decide : Flat ['\\', '"']) d hd
    · exact (by decide : Flat ['\\', '\'']) d hd
  split
  · exact flat_numericEscape c
  · rename_i hc
    simp only [Bool.or_eq_true, Bool.not_eq_true', not_or, Bool.not_eq_false] at hc
    exact fun d hd => List.mem_singleton.1 hd ▸ isPrintable_flat hc.2

theorem flat_escaped (s : String) : Flat (escaped s).toList := by
  unfold escaped
  split
  · decide
  · rename_i c cs _
    rw [String.toList_ofList]
    refine (flat_escapeChar true true c).append fun d hd => ?_
    obtain ⟨e, -, hd⟩ := List.mem_flatMap.1 hd
    exact flat_escapeChar false true e d hd

end Worksheet.Text
