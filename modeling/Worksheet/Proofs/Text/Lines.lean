import Worksheet.Text.Basic

set_option autoImplicit false

/-!
# Texts made of lines
-/
namespace Worksheet.Text

/-- A line that stays one when a line feed is put behind it. -/
structure IsLine (line : List Char) : Prop where
  noFeed : '\n' ∉ line
  noReturn : line.getLast? ≠ some '\r'

theorem isLine_append {front back : List Char} (hfront : '\n' ∉ front) (hne : back ≠ [])
    (hfeed : '\n' ∉ back) (hreturn : '\r' ∉ back) : IsLine (front ++ back) := by
  refine ⟨fun hmem => ?_, fun hlast => ?_⟩
  · rcases List.mem_append.1 hmem with hmem | hmem
    · exact hfront hmem
    · exact hfeed hmem
  · have hback := List.getLast?_eq_some_getLast hne
    rw [List.getLast?_append, hback, Option.some_or] at hlast
    exact hreturn (List.mem_of_getLast? (hback.trans hlast))

theorem lines_cons {c : Char} {cs l : List Char} {ls : List (List Char)} (hc : c ≠ '\n')
    (hr : c = '\r' → cs.head? ≠ some '\n') (h : lines cs = l :: ls) :
    lines (c :: cs) = (c :: l) :: ls := by
  rw [lines.eq_def]
  split
  · rename_i heq
    cases heq
  · rename_i heq
    obtain ⟨rfl, rfl⟩ := List.cons.inj heq
    exact absurd rfl (hr rfl)
  · rename_i heq
    exact absurd (List.cons.inj heq).1 hc
  · rename_i heq
    obtain ⟨rfl, rfl⟩ := List.cons.inj heq
    rw [h]

theorem lines_append {line : List Char} (h : IsLine line) (rest : List Char) :
    lines (line ++ '\n' :: rest) = line :: lines rest := by
  induction line with
  | nil =>
    rw [List.nil_append, lines.eq_def]
    rfl
  | cons c line ih =>
    obtain ⟨hfeed, hreturn⟩ := h
    have hc : c ≠ '\n' := fun he => hfeed (he ▸ List.mem_cons_self)
    have hline : '\n' ∉ line := fun hmem => hfeed (List.mem_cons_of_mem c hmem)
    have hlast : line.getLast? ≠ some '\r' := by
      intro he
      refine hreturn ?_
      rw [List.getLast?_cons, he]
      rfl
    refine lines_cons hc (fun hr hhead => ?_) (ih ⟨hline, hlast⟩)
    subst hr
    cases line with
    | nil => exact hreturn rfl
    | cons d line =>
      obtain rfl : d = '\n' := Option.some.inj hhead
      exact hline List.mem_cons_self

theorem lines_flatMap {ls : List (List Char)} (h : ∀ l ∈ ls, IsLine l) :
    lines (ls.flatMap fun l => l ++ ['\n']) = ls := by
  induction ls with
  | nil => rw [List.flatMap_nil, lines.eq_def]
  | cons l ls ih =>
    have hrest := ih fun m hm => h m (List.mem_cons_of_mem l hm)
    rw [List.flatMap_cons, List.append_assoc, List.singleton_append,
      lines_append (h l List.mem_cons_self), hrest]

theorem not_mem_of_mem_lines {cs line : List Char} (h : line ∈ lines cs) : '\n' ∉ line := by
  induction cs using lines.induct generalizing line with
  | case1 =>
    rw [lines] at h
    cases h
  | case2 rest ih | case3 rest ih =>
    rw [lines] at h
    rcases List.mem_cons.1 h with rfl | h
    · exact List.not_mem_nil
    · exact ih h
  | case4 c rest hreturn hfeed hrest ih =>
    rw [lines.eq_4 c rest hreturn hfeed, hrest] at h
    obtain rfl := List.mem_singleton.1 h
    exact fun hmem => hfeed (List.mem_singleton.1 hmem).symm
  | case5 c rest hreturn hfeed l ls hrest ih =>
    rw [lines.eq_4 c rest hreturn hfeed, hrest] at h
    rw [hrest] at ih
    rcases List.mem_cons.1 h with rfl | h
    · exact List.not_mem_cons_of_ne_of_not_mem (fun he => hfeed he.symm) (ih List.mem_cons_self)
    · exact ih (List.mem_cons_of_mem l h)

/-- A line put behind any text, with a line feed after it, changes the last line of that text only. -/
theorem lines_append_isLine (cs : List Char) : ∃ (ls : List (List Char)) (l : List Char),
    ∀ line rest, line ≠ [] → IsLine line →
      lines (cs ++ (line ++ '\n' :: rest)) = ls ++ (l ++ line) :: lines rest := by
  induction cs using lines.induct with
  | case1 => exact ⟨[], [], fun line rest _ hline => lines_append hline rest⟩
  | case2 cs ih | case3 cs ih =>
    obtain ⟨ls, l, h⟩ := ih
    refine ⟨[] :: ls, l, fun line rest hne hline => ?_⟩
    have hrest := h line rest hne hline
    simp only [List.cons_append]
    rw [lines, hrest]
  | case4 c cs hreturn hfeed _ ih | case5 c cs hreturn hfeed _ _ _ ih =>
    obtain ⟨ls, l, h⟩ := ih
    have hstop {line rest : List Char} (hne : line ≠ []) (hline : IsLine line) :
        c = '\r' → (cs ++ (line ++ '\n' :: rest)).head? ≠ some '\n' := by
      intro hc hhead
      cases cs with
      | nil =>
        cases line with
        | nil => exact hne rfl
        | cons d line =>
          obtain rfl : d = '\n' := Option.some.inj hhead
          exact hline.noFeed List.mem_cons_self
      | cons d cs =>
        obtain rfl : d = '\n' := Option.some.inj hhead
        exact hreturn cs hc rfl
    cases ls with
    | nil =>
      refine ⟨[], c :: l, fun line rest hne hline => ?_⟩
      exact lines_cons hfeed (hstop hne hline) (h line rest hne hline)
    | cons l' ls =>
      refine ⟨(c :: l') :: ls, l, fun line rest hne hline => ?_⟩
      exact lines_cons hfeed (hstop hne hline) (h line rest hne hline)

section pieces

def dropReturn (piece : List Char) : List Char :=
  if piece.getLast? = some '\r' then piece.dropLast else piece

/-- The lines of the pieces between line feeds: what follows the last line feed counts if it is not
empty, and keeps its carriage return. -/
def linesOf : List (List Char) → List (List Char)
  | [] => []
  | [piece] => if piece = [] then [] else [piece]
  | piece :: pieces => dropReturn piece :: linesOf pieces

theorem linesOf_cons (piece : List Char) {pieces : List (List Char)} (h : pieces ≠ []) :
    linesOf (piece :: pieces) = dropReturn piece :: linesOf pieces := by
  cases pieces with
  | nil => exact absurd rfl h
  | cons _ _ => rfl

theorem dropReturn_cons {c : Char} {piece : List Char} (h : c = '\r' → piece ≠ []) :
    dropReturn (c :: piece) = c :: dropReturn piece := by
  cases piece with
  | nil =>
    have hc : c ≠ '\r' := fun hc => h hc rfl
    simp [dropReturn, hc]
  | cons d piece =>
    unfold dropReturn
    rw [List.getLast?_cons_cons, List.dropLast_cons_cons]
    split
    · rfl
    · rfl

theorem splitOn_feed (cs : List Char) : ('\n' :: cs).splitOn '\n' = [] :: cs.splitOn '\n' := by
  rw [List.splitOn_cons_eq_if_modifyHead]
  exact if_pos (by decide)

theorem splitOn_cons {c : Char} (hc : c ≠ '\n') {cs piece : List Char} {pieces : List (List Char)}
    (h : cs.splitOn '\n' = piece :: pieces) :
    (c :: cs).splitOn '\n' = (c :: piece) :: pieces := by
  rw [List.splitOn_cons_eq_if_modifyHead, if_neg (by simpa using hc), h]
  rfl

theorem linesOf_splitOn_cons {c : Char} {cs : List Char} (hfeed : c ≠ '\n')
    (hreturn : c = '\r' → cs.head? ≠ some '\n') :
    linesOf ((c :: cs).splitOn '\n') = match linesOf (cs.splitOn '\n') with
      | [] => [[c]]
      | l :: ls => (c :: l) :: ls := by
  obtain ⟨piece, pieces, hsplit⟩ := List.exists_cons_of_ne_nil (List.splitOn_ne_nil '\n' cs)
  rw [splitOn_cons hfeed hsplit, hsplit]
  cases pieces with
  | nil =>
    cases piece with
    | nil => rfl
    | cons d piece => rfl
  | cons next pieces =>
    rw [linesOf_cons _ (List.cons_ne_nil _ _), linesOf_cons _ (List.cons_ne_nil _ _),
      dropReturn_cons]
    rintro hc rfl
    cases cs with
    | nil => cases hsplit
    | cons d cs =>
      by_cases hd : d = '\n'
      · exact hreturn hc (congrArg some hd)
      · obtain ⟨first, others, hrest⟩ := List.exists_cons_of_ne_nil (List.splitOn_ne_nil '\n' cs)
        rw [splitOn_cons hd hrest] at hsplit
        cases hsplit

theorem lines_eq_linesOf (cs : List Char) : lines cs = linesOf (cs.splitOn '\n') := by
  induction cs using lines.induct with
  | case1 => rfl
  | case2 cs ih =>
    rw [splitOn_cons (by decide) (splitOn_feed cs), linesOf_cons _ (List.splitOn_ne_nil _ _), lines, ih]
    rfl
  | case3 cs ih =>
    rw [splitOn_feed, linesOf_cons _ (List.splitOn_ne_nil _ _), lines, ih]
    rfl
  | case4 c cs hreturn hfeed hrest ih | case5 c cs hreturn hfeed _ _ hrest ih =>
    have hhead : c = '\r' → cs.head? ≠ some '\n' := by
      intro hc hhead
      obtain ⟨rest, rfl⟩ := List.head?_eq_some_iff.1 hhead
      exact hreturn rest hc rfl
    rw [linesOf_splitOn_cons hfeed hhead, ← ih, lines.eq_4 c cs hreturn hfeed, hrest]

end pieces

end Worksheet.Text
