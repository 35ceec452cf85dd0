import Worksheet.Batch.Listing
import Worksheet.Proofs.Sheet.Errors
import Worksheet.Proofs.Sheet.History
import Worksheet.Proofs.Sheet.Names
import Worksheet.Proofs.Text.Quoted
import Worksheet.Proofs.Text.Rows

set_option autoImplicit false

/-!
# Listings read in rows

A listing has one row for each cell as long as the texts in the sheet have no line feeds and no tabs.
Names, numbers and messages never have any, and contents are escaped, but the value of a text is printed
as it stands.
-/
namespace Worksheet
open Text

section flat

theorem Number.flat_text (x : Float) : Flat (text x) := by
  by_cases hfinite : isFinite x = true
  · intro c hc
    rcases mem_text hfinite hc with hdigit | rfl | rfl
    · have hcode := (isDigit_iff c).1 hdigit
      omega
    · decide
    · decide
  · unfold text
    split
    · decide
    · rename_i hlarge
      have hcode : code x = infinity := by
        unfold isFinite at hfinite
        rw [decide_eq_true_eq] at hfinite
        omega
      have hmagnitude : magnitude (code x) = "inf".toList := if_pos hcode
      rw [hmagnitude]
      split
      · decide
      · decide

theorem Cell.flat_name {name : String} (h : isCellName name = true) : Flat name.toList := by
  intro c hc
  have hcode := mem_toList h hc
  omega

theorem Formula.flat_message {e : EvalError}
    (h : ∀ v, e = .undefinedVariable v → Flat v.toList) : Flat e.message.toList := by
  cases e with
  | divisionByZero => decide
  | undefinedVariable v =>
    have hmessage : (EvalError.undefinedVariable v).message.toList =
        "The variable ".toList ++ v.toList ++ " is undefined.".toList := by
      rw [← String.toList_append, ← String.toList_append]
      rfl
    rw [hmessage]
    exact (Flat.append (by decide) (h v rfl)).append (by decide)

end flat

namespace Sheet

/-- What is printed of a cell: its name, its contents in escaped form and its value. -/
def row (s : Sheet) (n : String) : List (List Char) :=
  [n.toList, (escaped (s.contentOf n).input).toList, (s.valueOf n).display.toList]

theorem toList_listing (s : Sheet) : s.listing.toList = printed (s.names.map s.row) := by
  unfold listing printed
  rw [String.toList_join, List.flatMap_map, List.flatMap_map]
  congr 1
  funext n
  simp [listingEntry, printedRow, row, List.intercalate]

section value

variable {s : Sheet} (hs : s.Sound) (ht : s.Tidy) {n : String}
include hs

theorem Sound.display_text {t : String} (h : s.contentOf n = .text t) : (s.valueOf n).display = t := by
  rw [(hs.fromScratch n).unique (.text h)]
  rfl

include ht

theorem Sound.flat_display (h : ∀ t, s.contentOf n ≠ .text t) :
    Flat (s.valueOf n).display.toList := by
  have hnumber (x : Float) : Flat (Value.number x).display.toList := by
    change Flat (String.ofList (Number.text x)).toList
    rw [String.toList_ofList]
    exact Number.flat_text x
  have herror {e : Formula.EvalError} (he : Flat e.message.toList) :
      Flat (Value.error e).display.toList := by
    change Flat ("#ERR: " ++ e.message).toList
    rw [String.toList_append]
    exact Flat.append (by decide) he
  cases hc : s.contentOf n with
  | text t => exact absurd hc (h t)
  | number x =>
    rw [(hs.fromScratch n).unique (.number hc)]
    exact hnumber x
  | formula f =>
    obtain ⟨r, hr, haccounts⟩ := hs.accounts hc
    rw [hr]
    cases haccounts with
    | value _ => exact hnumber _
    | division => exact herror (by decide)
    | @undefined v hv _ =>
      refine herror (Formula.flat_message fun u hu => ?_)
      cases hu
      have hvar : v ∈ (s.contentOf n).vars := Content.mem_vars_iff.2 ⟨f, hc, hv⟩
      exact Cell.flat_name (isCellName_of_cellName (ht.cellName_of_mem_vars hvar))

end value

/-- No text in the sheet has a line feed or a tab in it. -/
def TextsFit (s : Sheet) : Prop :=
  ∀ n t, s.contentOf n = .text t → '\n' ∉ t.toList ∧ '\t' ∉ t.toList

section rows

variable {s : Sheet} (hs : s.Sound) (ht : s.Tidy)
include hs ht

/-- The fields of a row have no characters below the space, but for the value of a text. -/
theorem Sound.flat_row {n : String} (hn : n ∈ s.names) {field : List Char} (hfield : field ∈ s.row n) :
    Flat field ∨ ∃ t, s.contentOf n = .text t ∧ field = t.toList := by
  rw [row, List.mem_cons, List.mem_cons, List.mem_singleton] at hfield
  rcases hfield with rfl | rfl | rfl
  · exact .inl (Cell.flat_name (ht.isCellName_of_mem_names hn))
  · exact .inl (flat_escaped _)
  · by_cases htext : ∃ t, s.contentOf n = .text t
    · obtain ⟨t, hc⟩ := htext
      exact .inr ⟨t, hc, congrArg String.toList (hs.display_text hc)⟩
    · exact .inl (hs.flat_display ht fun t hc => htext ⟨t, hc⟩)

theorem Sound.rows_fit_iff : (∀ n ∈ s.names, ∀ field ∈ s.row n, '\n' ∉ field ∧ '\t' ∉ field) ↔
    s.TextsFit := by
  constructor
  · intro h n t hc
    by_cases hempty : (s.contentOf n).isEmpty = true
    · rw [hc] at hempty
      obtain rfl : t = "" := by simpa [Content.isEmpty] using hempty
      exact ⟨List.not_mem_nil, List.not_mem_nil⟩
    · have hn : n ∈ s.names := (ht.mem_names_iff n).2 (by simpa using hempty)
      have hvalue := h n hn _ (by simp [row] : (s.valueOf n).display.toList ∈ s.row n)
      rw [hs.display_text hc] at hvalue
      exact hvalue
  · intro h n hn field hfield
    rcases hs.flat_row ht hn hfield with hflat | ⟨t, hc, rfl⟩
    · exact ⟨hflat.not_mem (by decide), hflat.not_mem (by decide)⟩
    · exact h n t hc

end rows

/-- A listing of a sheet that can be reached is read as one row for each cell, in sheet order, exactly if
no text in the sheet has a line feed or a tab in it. Whatever a sheet holds, only the value of a text is
printed with characters below the space. -/
theorem listing_rows_iff {rules : Rules} {s : Sheet} (h : Reachable rules s) :
    s.Canonical ∧ (rowsIn s.listing.toList = s.names.map s.row ↔ s.TextsFit) ∧
      ∀ n ∈ s.names, ∀ field ∈ s.row n,
        Flat field ∨ ∃ t, s.contentOf n = .text t ∧ field = t.toList := by
  have hs := h.sound
  have ht := h.tidy
  have hne : ∀ row ∈ s.names.map s.row, row ≠ [] := by
    intro row hrow
    obtain ⟨n, -, rfl⟩ := List.mem_map.1 hrow
    exact List.cons_ne_nil _ _
  refine ⟨ht.canonical, ?_, fun n hn field => hs.flat_row ht hn⟩
  rw [toList_listing, rowsIn_printed_iff hne, List.forall_mem_map]
  exact hs.rows_fit_iff ht

theorem Sound.valueOf_var {s : Sheet} (hs : s.Sound) {n v : String}
    (h : s.contentOf n = .formula ⟨[.var v], v⟩) :
    s.valueOf n = .ofResult (Formula.resolve s.numberOf v) := by
  rw [← Formula.evaluate_var]
  exact (hs.fromScratch n).unique (.formula s.valueOf h fun u _ => hs.fromScratch u)

theorem names_mixed : mixed.names = ["A1", "B1", "C1", "D1"] := by
  obtain ⟨x, -, -, hcontent⟩ := contentOf_mixed
  have tidy : mixed.Tidy := afterEdits_tidy _ _
  have sorted : ["A1", "B1", "C1", "D1"].Pairwise fun a b => (Cell.compareNames a b).isLE := by
    decide
  unfold names
  rw [← List.mergeSort_of_pairwise sorted]
  refine Cell.mergeSort_eq_of_mem_iff tidy.nodup (by decide) fun n => ?_
  rw [tidy.mem_keys_iff, hcontent]
  by_cases hb : n = "B1"
  · simp [hb, Content.isEmpty]
  by_cases ha : n = "A1"
  · simp [ha, Content.isEmpty]
  by_cases hd : n = "D1"
  · simp [hd, Content.isEmpty]
  by_cases hc : n = "C1"
  · simp [hc, Content.isEmpty]
  simp [ha, hb, hc, hd, Content.isEmpty, Content.empty]

theorem rows_mixed : mixed.names.map mixed.row =
    [["A1".toList, "2".toList, "2".toList],
      ["B1".toList, "it\\'s two words".toList, "it's two words".toList],
      ["C1".toList, "=A1".toList, "2".toList],
      ["D1".toList, "=B1".toList, "#ERR: The variable B1 is undefined.".toList]] := by
  have hs : mixed.Sound := afterEdits_sound _ _
  obtain ⟨x, -, htext, hcontent⟩ := contentOf_mixed
  have content_A1 : mixed.contentOf "A1" = .number x := hcontent "A1"
  have content_B1 : mixed.contentOf "B1" = .text "it's two words" := hcontent "B1"
  have content_C1 : mixed.contentOf "C1" = .formula ⟨[.var "A1"], "A1"⟩ := hcontent "C1"
  have content_D1 : mixed.contentOf "D1" = .formula ⟨[.var "B1"], "B1"⟩ := hcontent "D1"
  have value_A1 : mixed.valueOf "A1" = .number x := (hs.fromScratch "A1").unique (.number content_A1)
  have value_B1 : mixed.valueOf "B1" = .text "it's two words" :=
    (hs.fromScratch "B1").unique (.text content_B1)
  have value_C1 : mixed.valueOf "C1" = .number x := by
    rw [hs.valueOf_var content_C1, Formula.resolve, numberOf, value_A1]
    rfl
  have value_D1 : mixed.valueOf "D1" = .error (.undefinedVariable "B1") := by
    rw [hs.valueOf_var content_D1, Formula.resolve, numberOf, value_B1]
    rfl
  have row_A1 : mixed.row "A1" = ["A1".toList, "2".toList, "2".toList] := by
    rw [row, value_A1, content_A1, Content.input, Value.display, htext]
    decide +kernel
  have row_B1 : mixed.row "B1" =
      ["B1".toList, "it\\'s two words".toList, "it's two words".toList] := by
    rw [row, value_B1, content_B1]
    decide +kernel
  have row_C1 : mixed.row "C1" = ["C1".toList, "=A1".toList, "2".toList] := by
    rw [row, value_C1, content_C1, Value.display, htext]
    decide +kernel
  have row_D1 : mixed.row "D1" =
      ["D1".toList, "=B1".toList, "#ERR: The variable B1 is undefined.".toList] := by
    rw [row, value_D1, content_D1]
    decide +kernel
  rw [names_mixed, List.map_cons, List.map_cons, List.map_cons, List.map_cons, row_A1, row_B1, row_C1,
    row_D1]
  rfl

/-- The sheet has formulas with a number and with an error, a number, and a text with a quotation mark. -/
theorem listing_rows_iff_mixed : Reachable mixed.rules mixed ∧
    rowsIn mixed.listing.toList =
      [["A1".toList, "2".toList, "2".toList],
        ["B1".toList, "it\\'s two words".toList, "it's two words".toList],
        ["C1".toList, "=A1".toList, "2".toList],
        ["D1".toList, "=B1".toList, "#ERR: The variable B1 is undefined.".toList]] := by
  have reached : Reachable mixed.rules mixed := by
    rw [mixed, rules_afterEdits]
    exact reachable_afterEdits _ _
  have hfit : mixed.TextsFit := by
    have hfields : ∀ fields ∈ mixed.names.map mixed.row, ∀ field ∈ fields,
        '\n' ∉ field ∧ '\t' ∉ field := by
      rw [rows_mixed]
      decide
    exact (reached.sound.rows_fit_iff reached.tidy).1 (List.forall_mem_map.1 hfields)
  rw [← rows_mixed]
  exact ⟨reached, (listing_rows_iff reached).2.1.2 hfit⟩

/-- A sheet with one cell, in whose text a line follows that looks like the row of another one. -/
def forged : Sheet := afterEdits .standard [("A1", "x\nB1\t7\t7")]

/-- A row of a cell that is not there. -/
theorem listing_forged : Reachable .standard forged ∧ forged.names = ["A1"] ∧
    rowsIn forged.listing.toList =
      [["A1".toList, "x\\nB1\\t7\\t7".toList, "x".toList], ["B1".toList, "7".toList, "7".toList]] :=
  ⟨reachable_afterEdits .standard _, by decide +kernel, by decide +kernel⟩

end Sheet
end Worksheet
