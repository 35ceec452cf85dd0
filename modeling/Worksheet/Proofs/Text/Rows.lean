import Worksheet.Proofs.Text.Lines

set_option autoImplicit false

/-!
# Texts read in rows

A row is printed on one line with tabs between its fields. It is read back if no field has a line feed or
a tab in it, and only then.
-/
namespace Worksheet.Text

/-- The rows that are read from a text: its lines, cut at the tabs. -/
def rowsIn (cs : List Char) : List (List (List Char)) :=
  (cs.splitOn '\n').dropLast.map fun line => line.splitOn '\t'

def printedRow (row : List (List Char)) : List Char := ['\t'].intercalate row ++ ['\n']

def printed (rows : List (List (List Char))) : List Char := rows.flatMap printedRow

theorem mem_of_mem_splitOn {x c : Char} {cs piece : List Char} (h : piece ∈ cs.splitOn x)
    (hc : c ∈ piece) : c ∈ cs ∧ c ≠ x := by
  induction cs generalizing piece with
  | nil =>
    rw [List.splitOn_nil, List.mem_singleton] at h
    subst h
    cases hc
  | cons d cs ih =>
    rw [List.splitOn_cons_eq_if_modifyHead] at h
    split at h
    · rcases List.mem_cons.1 h with rfl | h
      · cases hc
      · exact (ih h hc).imp (List.mem_cons_of_mem d) id
    · rename_i hd
      obtain ⟨first, pieces, hsplit⟩ := List.exists_cons_of_ne_nil (List.splitOn_ne_nil x cs)
      rw [hsplit] at h ih
      rcases List.mem_cons.1 h with rfl | h
      · rcases List.mem_cons.1 hc with rfl | hc
        · exact ⟨List.mem_cons_self, by simpa using hd⟩
        · exact (ih List.mem_cons_self hc).imp (List.mem_cons_of_mem d) id
      · exact (ih (List.mem_cons_of_mem first h) hc).imp (List.mem_cons_of_mem d) id

theorem not_mem_of_mem_rowsIn {cs field : List Char} {row : List (List Char)} (hrow : row ∈ rowsIn cs)
    (hfield : field ∈ row) : '\n' ∉ field ∧ '\t' ∉ field := by
  obtain ⟨line, hline, rfl⟩ := List.mem_map.1 hrow
  constructor
  · intro hc
    have hmem := (mem_of_mem_splitOn hfield hc).1
    exact (mem_of_mem_splitOn (List.dropLast_subset _ hline) hmem).2 rfl
  · intro hc
    exact (mem_of_mem_splitOn hfield hc).2 rfl

theorem mem_intercalate {x c : Char} {row : List (List Char)} (h : c ∈ [x].intercalate row) :
    c = x ∨ ∃ field ∈ row, c ∈ field := by
  induction row with
  | nil =>
    rw [List.intercalate_nil] at h
    cases h
  | cons first row ih =>
    by_cases hrow : row = []
    · subst hrow
      rw [List.intercalate_singleton] at h
      exact .inr ⟨first, List.mem_cons_self, h⟩
    · rw [List.intercalate_cons_of_ne_nil hrow, List.append_assoc] at h
      rcases List.mem_append.1 h with hc | h
      · exact .inr ⟨first, List.mem_cons_self, hc⟩
      rcases List.mem_append.1 h with hc | h
      · exact .inl (List.mem_singleton.1 hc)
      · exact (ih h).imp id fun ⟨field, hfield, hc⟩ => ⟨field, List.mem_cons_of_mem first hfield, hc⟩

theorem splitOn_printed {rows : List (List (List Char))}
    (h : ∀ row ∈ rows, '\n' ∉ ['\t'].intercalate row) :
    (printed rows).splitOn '\n' = rows.map (['\t'].intercalate ·) ++ [[]] := by
  induction rows with
  | nil => rfl
  | cons row rows ih =>
    unfold printed printedRow
    rw [List.flatMap_cons, List.append_assoc, List.singleton_append,
      List.splitOn_append_cons_self_of_not_mem (h row List.mem_cons_self)]
    exact congrArg _ (ih fun r hr => h r (List.mem_cons_of_mem row hr))

theorem rowsIn_printed_iff {rows : List (List (List Char))} (hne : ∀ row ∈ rows, row ≠ []) :
    rowsIn (printed rows) = rows ↔ ∀ row ∈ rows, ∀ field ∈ row, '\n' ∉ field ∧ '\t' ∉ field := by
  constructor
  · intro h row hrow field
    rw [← h] at hrow
    exact not_mem_of_mem_rowsIn hrow
  · intro h
    have hlines : ∀ row ∈ rows, '\n' ∉ ['\t'].intercalate row := by
      intro row hrow hfeed
      rcases mem_intercalate hfeed with hc | ⟨field, hfield, hc⟩
      · cases hc
      · exact (h row hrow field hfield).1 hc
    unfold rowsIn
    rw [splitOn_printed hlines, List.dropLast_concat, List.map_map]
    calc rows.map (fun row => (['\t'].intercalate row).splitOn '\t')
      _ = rows.map id := List.map_congr_left fun row hrow =>
          List.splitOn_intercalate '\t' (fun field hfield => (h row hrow field hfield).2) (hne row hrow)
      _ = rows := List.map_id rows

end Worksheet.Text
