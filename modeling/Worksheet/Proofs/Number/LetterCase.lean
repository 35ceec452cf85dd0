import Worksheet.Proofs.Text.Ascii
import Worksheet.Proofs.Text.Runs
import Worksheet.Number.Numeral

set_option autoImplicit false

/-!
# The letter case of numbers

A numeral has no letters but the mark of its exponent, which may be a small or a capital one, and the names
of infinity and of the undefined value are read in any case.
-/
namespace Worksheet.Number
open Worksheet.Text

theorem takeWhile_isDigit_lowered (cs : List Char) :
    (lowered cs).takeWhile Char.isDigit = cs.takeWhile Char.isDigit := by
  rw [takeWhile_lowered isDigit_toLower, lowered_of_isDigit fun _ => List.mem_takeWhile_imp]

theorem isMark_toLower (c : Char) : (c.toLower = 'e' ∨ c.toLower = 'E') ↔ (c = 'e' ∨ c = 'E') := by
  simp only [← Char.toNat_inj, show 'e'.toNat = 101 from rfl, show 'E'.toNat = 69 from rfl]
  rcases toLower_cases c with ⟨hsame, -⟩ | ⟨hfirst, hlast, hcode⟩
  · rw [hsame]
  · omega

theorem exponentPart_lowered (cs : List Char) : exponentPart (lowered cs) = exponentPart cs := by
  cases cs with
  | nil => rfl
  | cons c rest =>
    have hdigits (negative : Bool) (ds : List Char) :
        (if lowered ds ≠ [] ∧ (lowered ds).all Char.isDigit = true then
          some (if negative then -(digitsValue (lowered ds) : Int) else digitsValue (lowered ds))
        else none) =
        if ds ≠ [] ∧ ds.all Char.isDigit = true then
          some (if negative then -(digitsValue ds : Int) else digitsValue ds)
        else none := by
      by_cases hall : ds.all Char.isDigit = true
      · rw [lowered_of_isDigit (List.all_eq_true.1 hall)]
      · simp only [all_lowered isDigit_toLower, hall, and_false, Bool.false_eq_true, ↓reduceIte]
    rw [lowered_cons]
    simp only [exponentPart, isMark_toLower]
    congr 1
    cases rest with
    | nil => rfl
    | cons d ds =>
      by_cases hminus : d = '-'
      · subst hminus
        exact hdigits true ds
      by_cases hplus : d = '+'
      · subst hplus
        exact hdigits false ds
      have hminus' : d.toLower ≠ '-' := toLower_ne (by decide) hminus
      have hplus' : d.toLower ≠ '+' := toLower_ne (by decide) hplus
      simpa [hminus, hplus, hminus', hplus'] using hdigits false (d :: ds)

theorem numeral_lowered (cs : List Char) : numeral (lowered cs) = numeral cs := by
  unfold numeral
  dsimp only
  rw [takeWhile_isDigit_lowered, dropWhile_lowered isDigit_toLower]
  cases cs.dropWhile Char.isDigit with
  | nil => rfl
  | cons c rest =>
    by_cases hc : c = '.'
    · subst hc
      simp [takeWhile_isDigit_lowered, dropWhile_lowered isDigit_toLower, exponentPart_lowered]
    · have hlower : c.toLower ≠ '.' := toLower_ne (by decide) hc
      have hrest := exponentPart_lowered (c :: rest)
      rw [lowered_cons] at hrest ⊢
      simp [hc, hlower, hrest]

theorem unsigned_lowered (cs : List Char) : unsigned (lowered cs) = unsigned cs := by
  unfold unsigned
  rw [numeral_lowered, ← lowered, ← lowered, lowered_lowered]

theorem read_lowered (cs : List Char) : read (lowered cs) = read cs := by
  cases cs with
  | nil => rfl
  | cons c cs =>
    by_cases hminus : c = '-'
    · subst hminus
      simp [read, unsigned_lowered, show '-'.toLower = '-' by decide]
    by_cases hplus : c = '+'
    · subst hplus
      simp [read, unsigned_lowered, show '+'.toLower = '+' by decide]
    have hminus' : c.toLower ≠ '-' := toLower_ne (by decide) hminus
    have hplus' : c.toLower ≠ '+' := toLower_ne (by decide) hplus
    have hrest := unsigned_lowered (c :: cs)
    rw [lowered_cons] at hrest ⊢
    simp [read, hminus, hplus, hminus', hplus', hrest]

theorem readFinite_lowered (cs : List Char) : readFinite (lowered cs) = readFinite cs := by
  rw [readFinite, read_lowered, readFinite]

end Worksheet.Number
