import Worksheet.Markup.Reader
import Worksheet.Proofs.Text.Ascii
import Worksheet.Proofs.Text.Runs

set_option autoImplicit false

/-!
# Reading written markup

Markup that was written with its text escaped is read as the events it was written for.
-/
namespace Worksheet.Markup
open Worksheet.Text (takeWhile_ne dropWhile_none isLower_iff)

/-- The text is read without a fault as these events, wherever it stands. -/
def Reads (opened : List (List Char)) (cs : List Char) (events : List Event) : Prop :=
  ∀ offset, (readFrom offset opened cs).items.map Item.event = events ∧
    (readFrom offset opened cs).fault = none

/-- There is no event for a text without characters. -/
def textEvents (text : List Char) : List Event := if text = [] then [] else [.text text]

theorem not_mem_escape {d : Char} (hd : d ∈ ['<', '>', '"', '\'']) (cs : List Char) :
    d ∉ escape cs := by
  have hclear : ∀ d ∈ ['<', '>', '"', '\''],
      ∀ s ∈ ["&amp;", "&lt;", "&gt;", "&quot;", "&apos;", "&#13;"], d ∉ s.toList :=
    Text.forall_mem_of_all (by decide)
  intro hmem
  obtain ⟨c, -, hc⟩ := List.mem_flatMap.1 hmem
  unfold escapeChar at hc
  split at hc
  · exact hclear d hd "&amp;" (by decide) hc
  · exact hclear d hd "&lt;" (by decide) hc
  · exact hclear d hd "&gt;" (by decide) hc
  · exact hclear d hd "&quot;" (by decide) hc
  · exact hclear d hd "&apos;" (by decide) hc
  · exact hclear d hd "&#13;" (by decide) hc
  · rename_i hlt hgt hquot hapos _
    obtain rfl := List.mem_singleton.1 hc
    simp only [List.mem_cons, List.not_mem_nil, or_false] at hd
    rcases hd with hd | hd | hd | hd
    · exact hlt hd
    · exact hgt hd
    · exact hquot hd
    · exact hapos hd

section pieces

theorem reads_end {text : List Char} (h : '<' ∉ text) (opened : List (List Char)) :
    Reads opened text (textEvents text) := by
  intro offset
  have htake : text.takeWhile (· ≠ '<') = text :=
    List.takeWhile_eq_self_iff.2 fun c hc => decide_eq_true fun he => h (he ▸ hc)
  have hbody : text.drop (text.length + 1) = [] := List.drop_eq_nil_of_le (by omega)
  rw [readFrom]
  simp only [htake, hbody, ↓reduceDIte]
  unfold textEvents
  by_cases htext : text = []
  · simp [htext]
  · simp [htext]

section tag

variable {text body : List Char} {opened : List (List Char)}

theorem drop_mark (text : List Char) (c : Char) (rest : List Char) :
    (text ++ c :: rest).drop (text.length + 1) = rest := by
  rw [← List.drop_drop, List.drop_left]
  rfl

/-- What is read before a tag are the items of the text in front of it. -/
theorem readFrom_of_piece {event : Event} {n : Nat} (h : '<' ∉ text) (hbody : body ≠ [])
    (hpiece : piece opened body = .ok ⟨event, n⟩) (offset : Nat) :
    ∃ before stop, before.map Item.event = textEvents text ∧
      readFrom offset opened (text ++ '<' :: body) =
        ⟨before ++ ⟨event, stop⟩ :: (readFrom stop (event.openedAfter opened) (body.drop n)).items,
          (readFrom stop (event.openedAfter opened) (body.drop n)).fault⟩ := by
  have htake := takeWhile_ne h body
  have hdrop := drop_mark text '<' body
  refine ⟨if text = [] then [] else [⟨.text text, offset + Text.bytes text⟩],
    offset + Text.bytes text + 1 + Text.bytes (body.take n), ?_, ?_⟩
  · unfold textEvents
    split
    · rfl
    · rfl
  · rw [readFrom]
    simp only [htake, hdrop, hbody, ↓reduceDIte, hpiece]

theorem readFrom_of_fault {fault : Fault} (h : '<' ∉ text) (hbody : body ≠ [])
    (hpiece : piece opened body = .error fault) (offset : Nat) :
    (readFrom offset opened (text ++ '<' :: body)).fault = some fault := by
  have htake := takeWhile_ne h body
  have hdrop := drop_mark text '<' body
  rw [readFrom]
  simp only [htake, hdrop, hbody, ↓reduceDIte, hpiece]

theorem reads_bare (h : '<' ∉ text) (opened : List (List Char)) :
    Reads opened (text ++ ['<']) (textEvents text) := by
  intro offset
  have htake := takeWhile_ne h []
  have hdrop := drop_mark text '<' []
  rw [readFrom]
  simp only [htake, hdrop, ↓reduceDIte]
  unfold textEvents
  by_cases htext : text = []
  · simp [htext]
  · simp [htext]

end tag

theorem reads_piece (body : List Char) (event : Event) {text rest : List Char}
    {opened : List (List Char)} {events : List Event} (h : '<' ∉ text) (hbody : body ≠ [])
    (hpiece : piece opened (body ++ rest) = .ok ⟨event, body.length⟩)
    (hrest : Reads (event.openedAfter opened) rest events) :
    Reads opened (text ++ '<' :: (body ++ rest)) (textEvents text ++ event :: events) := by
  intro offset
  have hne : body ++ rest ≠ [] := fun hnil => hbody (List.append_eq_nil_iff.1 hnil).1
  obtain ⟨before, stop, hbefore, hread⟩ := readFrom_of_piece h hne hpiece offset
  obtain ⟨hevents, hfault⟩ := hrest stop
  rw [hread, List.drop_left]
  refine ⟨?_, hfault⟩
  rw [List.map_append, List.map_cons, hbefore, hevents]

theorem tagLength?_append {cs : List Char} (h : ∀ c ∈ cs, c ≠ '>' ∧ c ≠ '"' ∧ c ≠ '\'')
    (rest : List Char) :
    tagLength? none (cs ++ rest) = (tagLength? none rest).map (· + cs.length) := by
  induction cs with
  | nil => simp
  | cons c cs ih =>
    obtain ⟨hgt, hquot, hapos⟩ := h c List.mem_cons_self
    have hrest := ih fun d hd => h d (List.mem_cons_of_mem c hd)
    simp only [List.cons_append, tagLength?, hgt, hquot, hapos, beq_iff_eq, Bool.or_eq_true,
      or_self, ↓reduceIte, hrest, Option.map_map, List.length_cons]
    rfl

theorem tagLength?_quoted {cs : List Char} {q : Char} (h : q ∉ cs) (rest : List Char) :
    tagLength? (some q) (cs ++ q :: rest) =
      (tagLength? none rest).map (· + (cs.length + 1)) := by
  induction cs with
  | nil => simp [tagLength?]
  | cons c cs ih =>
    have hc : c ≠ q := fun he => h (he ▸ List.mem_cons_self)
    have hrest := ih fun hmem => h (List.mem_cons_of_mem c hmem)
    simp only [List.cons_append, tagLength?, hc, beq_iff_eq, ↓reduceIte, hrest, Option.map_map,
      List.length_cons]
    rfl

theorem piece_of_isLower {c : Char} (hc : c.isLower = true) (opened : List (List Char))
    (cs : List Char) : piece opened (c :: cs) = tag (c :: cs) := by
  unfold piece
  split
  · rename_i heq
    obtain rfl := (List.cons.inj heq).1
    cases hc
  · rename_i heq
    obtain rfl := (List.cons.inj heq).1
    cases hc
  · rename_i heq
    obtain rfl := (List.cons.inj heq).1
    cases hc
  · rfl

theorem piece_tag {content rest : List Char} (hfirst : ∃ c cs, content = c :: cs ∧ c.isLower = true)
    (hlength : tagLength? none (content ++ '>' :: rest) = some content.length)
    (hlast : content.getLast? ≠ some '/') (opened : List (List Char)) :
    piece opened (content ++ '>' :: rest) =
      .ok ⟨.start ⟨content.takeWhile (!isGap ·), content.dropWhile (!isGap ·)⟩,
        content.length + 1⟩ := by
  have htag : piece opened (content ++ '>' :: rest) = tag (content ++ '>' :: rest) := by
    obtain ⟨c, cs, rfl, hc⟩ := hfirst
    exact piece_of_isLower hc opened _
  rw [htag]
  unfold tag
  rw [hlength]
  dsimp only
  rw [List.take_left, if_neg hlast]

structure IsTagName (name : List Char) : Prop where
  ne_nil : name ≠ []
  lower : ∀ c ∈ name, c.isLower = true

theorem IsTagName.ne {name : List Char} (h : IsTagName name) {c d : Char} (hc : c ∈ name)
    (hd : d.toNat < 97) : c ≠ d := by
  have hcode := (isLower_iff c).1 (h.lower c hc)
  rintro rfl
  omega

theorem IsTagName.isGap {name : List Char} (h : IsTagName name) :
    ∀ c ∈ name, (!isGap c) = true := by
  intro c hc
  have hspace : c ≠ ' ' := h.ne hc (by decide)
  have htab : c ≠ '\t' := h.ne hc (by decide)
  have hfeed : c ≠ '\n' := h.ne hc (by decide)
  have hreturn : c ≠ '\r' := h.ne hc (by decide)
  simp [Markup.isGap, hspace, htab, hfeed, hreturn]

theorem IsTagName.exists_cons {name : List Char} (h : IsTagName name) :
    ∃ c cs, name = c :: cs ∧ c.isLower = true := by
  have hlower := h.lower
  cases name with
  | nil => exact absurd rfl h.ne_nil
  | cons c cs => exact ⟨c, cs, rfl, hlower c List.mem_cons_self⟩

theorem IsTagName.closingName_eq {name : List Char} (h : IsTagName name) : closingName name = name := by
  have hback : name.reverse.dropWhile Markup.isGap = name.reverse := by
    refine dropWhile_none fun c hc => ?_
    have hmem : c ∈ name := List.mem_reverse.1 (List.mem_of_mem_head? hc)
    simpa using h.isGap c hmem
  unfold closingName
  rw [hback, List.reverse_reverse]
  split
  · rfl
  · rfl

theorem IsTagName.tagLength?_eq {name : List Char} (h : IsTagName name) (rest : List Char) :
    tagLength? none (name ++ '>' :: rest) = some name.length := by
  rw [tagLength?_append fun c hc => ⟨h.ne hc (by decide), h.ne hc (by decide), h.ne hc (by decide)⟩]
  simp [tagLength?]

theorem piece_open {name : List Char} (hname : IsTagName name) (opened : List (List Char))
    (rest : List Char) : piece opened (name ++ '>' :: rest) =
      .ok ⟨.start ⟨name, []⟩, name.length + 1⟩ := by
  have hlength := hname.tagLength?_eq rest
  have hlast : name.getLast? ≠ some '/' := fun hl =>
    hname.ne (List.mem_of_getLast? hl) (by decide) rfl
  have hpiece := piece_tag hname.exists_cons hlength hlast opened
  rwa [List.takeWhile_eq_self_iff.2 hname.isGap, List.dropWhile_eq_nil_iff.2 hname.isGap] at hpiece

theorem piece_close {name : List Char} (hname : IsTagName name) (opened : List (List Char))
    (rest : List Char) : piece (name :: opened) ('/' :: (name ++ '>' :: rest)) =
      .ok ⟨.close name, name.length + 2⟩ := by
  have hcontent : (name ++ '>' :: rest).takeWhile (· ≠ '>') = name :=
    takeWhile_ne (fun hc => hname.ne hc (by decide) rfl) rest
  change closing (name :: opened) (name ++ '>' :: rest) = _
  unfold closing
  dsimp only
  rw [hcontent, hname.closingName_eq, if_pos rfl]

theorem reads_open {name : List Char} (hname : IsTagName name) {text rest : List Char}
    {opened : List (List Char)} {events : List Event} (h : '<' ∉ text)
    (hrest : Reads (name :: opened) rest events) :
    Reads opened (text ++ '<' :: (name ++ '>' :: rest))
      (textEvents text ++ .start ⟨name, []⟩ :: events) := by
  have hpiece := piece_open hname opened rest
  have hread := reads_piece (name ++ ['>']) (.start ⟨name, []⟩) h (by simp)
    (by simpa using hpiece) hrest
  simpa using hread

theorem reads_close {name : List Char} (hname : IsTagName name) {text rest : List Char}
    {opened : List (List Char)} {events : List Event} (h : '<' ∉ text)
    (hrest : Reads opened rest events) :
    Reads (name :: opened) (text ++ '<' :: '/' :: (name ++ '>' :: rest))
      (textEvents text ++ .close name :: events) := by
  have hpiece := piece_close hname opened rest
  have hread : Reads (name :: opened) (text ++ '<' :: ('/' :: (name ++ ['>']) ++ rest))
      (textEvents text ++ .close name :: events) :=
    reads_piece ('/' :: (name ++ ['>'])) (.close name) h (by simp) (by simpa using hpiece) hrest
  simpa using hread

end pieces

end Worksheet.Markup
