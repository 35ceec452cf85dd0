import Worksheet.Proofs.Snapshot.Lines

set_option autoImplicit false

/-!
# The version in the line format

Reading only the version looks for headers in every line, while reading the whole text passes over blank
lines and comments first and stops at the first line that is no record. The two still agree, since a
header is never passed over.
-/
namespace Worksheet.Lines

theorem isIgnorable_of_version? {line : List Char} {v : String} (h : version? line = some v) :
    isIgnorable line = false := by
  unfold version? at h
  split at h
  · rename_i hprefix
    obtain ⟨rest, rfl⟩ := List.isPrefixOf_iff_prefix.1 hprefix
    have hmark : versionMark ++ rest = "@version".toList ++ ':' :: rest := rfl
    rw [hmark, isIgnorable_colon]
    decide
  · cases h

/-- What the reading of a whole text and that of its version give together: the same version, no version,
or a line that is no part of a snapshot and not after the second header. -/
inductive Agree : Except DecodeError Snapshot → Except DecodeError String → Prop where
  | read (s : Snapshot) : Agree (.ok s) (.ok s.version)
  | unversioned : Agree (.error .noVersion) (.error .noVersion)
  | refused {number : Nat} (fault : LineFault) {version : Except DecodeError String}
      (h : ∀ n other, version = .error (.atLine n other) → number ≤ n) :
      Agree (.error (.atLine number fault)) version

section readers

variable {number n : Nat} {version : Option String} {ls : List (List Char)} {fault : LineFault}

theorem le_of_decodeVersionFrom
    (h : decodeVersionFrom number version ls = .error (.atLine n fault)) : number ≤ n := by
  induction ls generalizing number version with
  | nil =>
    cases version with
    | none => cases h
    | some _ => cases h
  | cons line rest ih =>
    rw [decodeVersionFrom] at h
    split at h
    · split at h
      · cases h
        exact Nat.le_refl n
      · exact Nat.le_of_succ_le (ih h)
    · exact Nat.le_of_succ_le (ih h)

theorem agree_decodeFrom (number : Nat) (version : Option String) (before : List Record)
    (ls : List (List Char)) :
    Agree (decodeFrom number version before ls) (decodeVersionFrom number version ls) := by
  induction ls generalizing number version before with
  | nil =>
    cases version with
    | none => exact .unversioned
    | some v => exact .read ⟨v, before.reverse⟩
  | cons line rest ih =>
    cases hv : version? line with
    | some v =>
      rw [decodeFrom, decodeVersionFrom, isIgnorable_of_version? hv, hv]
      cases version with
      | none => exact ih (number + 1) (some v) before
      | some _ =>
        refine .refused _ fun n other h => ?_
        cases h
        exact Nat.le_refl number
    | none =>
      have hversion : decodeVersionFrom number version (line :: rest) =
          decodeVersionFrom (number + 1) version rest := by
        rw [decodeVersionFrom, hv]
      rw [decodeFrom, hversion, hv]
      split
      · exact ih (number + 1) version before
      dsimp only
      split
      · exact ih (number + 1) version _
      · exact .refused _ fun n other h => Nat.le_of_succ_le (le_of_decodeVersionFrom h)

end readers

theorem agree_decode (text : String) : Agree (decode text) (decodeVersion text) :=
  agree_decodeFrom 1 none [] _

/-- The version that is read by itself is the one of the whole text. Where it cannot be read, neither can
the whole text, which is refused at the second header or before it; and where the whole text only has no
version, there is none by itself. -/
theorem decodeVersion_agrees (text : String) :
    (∀ s, decode text = .ok s → decodeVersion text = .ok s.version) ∧
    (∀ e, decodeVersion text = .error e → ∃ e', decode text = .error e') ∧
    (∀ n, decodeVersion text = .error (.atLine n .secondVersion) →
      ∃ m fault, m ≤ n ∧ decode text = .error (.atLine m fault)) ∧
    (decode text = .error .noVersion → decodeVersion text = .error .noVersion) := by
  have hagree := agree_decode text
  generalize decode text = whole at hagree
  generalize decodeVersion text = version at hagree
  cases hagree with
  | read s =>
    refine ⟨fun t ht => ?_, nofun, nofun, nofun⟩
    rw [Except.ok.inj ht]
  | unversioned => exact ⟨nofun, fun _ _ => ⟨_, rfl⟩, nofun, fun _ => rfl⟩
  | refused fault hline =>
    exact ⟨nofun, fun _ _ => ⟨_, rfl⟩, fun n hn => ⟨_, fault, hline n _ hn, rfl⟩, nofun⟩

/-- A text with two headers, but a line that is no record before the second one. -/
def misplaced : String := " @version: 0\n#\n@version: 1\nA1\n@version: 2"

/-- The indented header is a record, and the whole text is refused before its second header. -/
theorem decodeVersion_agrees_misplaced :
    decodeVersion misplaced = .error (.atLine 5 .secondVersion) ∧
      ∃ m fault, m ≤ 5 ∧ decode misplaced = .error (.atLine m fault) := by
  have hsecond : decodeVersion misplaced = .error (.atLine 5 .secondVersion) := by rfl
  exact ⟨hsecond, (decodeVersion_agrees misplaced).2.2.1 5 hsecond⟩

end Worksheet.Lines
