import Worksheet.Proofs.Snapshot.LineVersion

set_option autoImplicit false

/-!
# The grammar of the line format

A text is read line by line, and the first line that offends is the one that is blamed: a header after
another one, or a line that is neither a header nor passed over nor a record. A text without such a line
and with a header is read in full.
-/
namespace Worksheet.Lines
open Worksheet.Text

def IsHeader (line : List Char) : Prop := versionMark <+: line

def IsPassedOver (line : List Char) : Prop :=
  trimList line = [] ∨ (trimList line).head? = some '#'

/-- A line that gives the contents of a name, which stands in front of its first colon. -/
def IsRecord (line : List Char) : Prop :=
  ¬IsHeader line ∧ ¬IsPassedOver line ∧ ':' ∈ line ∧ trimList (line.takeWhile (· ≠ ':')) ≠ []

/-- A line that may not follow the lines before it. -/
def Offends (before : List (List Char)) (line : List Char) : Prop :=
  (IsHeader line ∧ ∃ l ∈ before, IsHeader l) ∨
    (¬IsHeader line ∧ ¬IsPassedOver line ∧ ¬IsRecord line)

def Clean (ls : List (List Char)) : Prop := ∀ i (h : i < ls.length), ¬Offends (ls.take i) ls[i]

instance : DecidablePred IsHeader := fun line => inferInstanceAs (Decidable (versionMark <+: line))

instance : DecidablePred IsPassedOver := fun line =>
  inferInstanceAs (Decidable (trimList line = [] ∨ (trimList line).head? = some '#'))

instance : DecidablePred IsRecord := fun line =>
  inferInstanceAs (Decidable (¬IsHeader line ∧ ¬IsPassedOver line ∧ ':' ∈ line ∧
    trimList (line.takeWhile (· ≠ ':')) ≠ []))

instance (before : List (List Char)) (line : List Char) : Decidable (Offends before line) :=
  inferInstanceAs (Decidable ((IsHeader line ∧ ∃ l ∈ before, IsHeader l) ∨
    (¬IsHeader line ∧ ¬IsPassedOver line ∧ ¬IsRecord line)))

instance (ls : List (List Char)) : Decidable (Clean ls) :=
  inferInstanceAs (Decidable (∀ i (h : i < ls.length), ¬Offends (ls.take i) ls[i]))

/-- The lines of a text: what stands between its line feeds, less one carriage return in front of each. -/
def linesIn (text : String) : List (List Char) := linesOf (text.toList.splitOn '\n')

def dropSpace (cs : List Char) : List Char := if cs.head? = some ' ' then cs.tail else cs

def field (cs : List Char) : String := String.ofList (unescape (dropSpace cs))

def versionIn (header : List Char) : String := field (header.drop versionMark.length)

def recordIn (line : List Char) : Record :=
  ⟨String.ofList (trimList (line.takeWhile (· ≠ ':'))), field ((line.dropWhile (· ≠ ':')).tail)⟩

/-- What is wrong with a line that offends. -/
def faultIn (line : List Char) : LineFault :=
  if IsHeader line then .secondVersion else if ':' ∈ line then .noName else .noColon

section line

variable {line : List Char}

theorem fieldValue_eq_field (cs : List Char) : fieldValue cs = field cs := by
  unfold fieldValue field dropSpace
  cases cs with
  | nil => rfl
  | cons c cs =>
    by_cases hc : c = ' '
    · subst hc
      rfl
    · simp [hc]

theorem isIgnorable_iff (line : List Char) : isIgnorable line = true ↔ IsPassedOver line := by
  unfold isIgnorable IsPassedOver
  cases trimList line with
  | nil => simp
  | cons c cs => simp

theorem version?_of_isHeader (h : IsHeader line) : version? line = some (versionIn line) := by
  unfold version? versionIn
  rw [if_pos (List.isPrefixOf_iff_prefix.2 h), fieldValue_eq_field]

theorem version?_of_not_isHeader (h : ¬IsHeader line) : version? line = none :=
  if_neg fun hp => h (List.isPrefixOf_iff_prefix.1 hp)

theorem IsHeader.not_isPassedOver (h : IsHeader line) : ¬IsPassedOver line := by
  rw [← isIgnorable_iff, isIgnorable_of_version? (version?_of_isHeader h)]
  decide

theorem record_of_mem (h : ':' ∈ line) : record line =
    if trimList (line.takeWhile (· ≠ ':')) = [] then .error .noName else .ok (recordIn line) := by
  obtain ⟨front, back, rfl, hfront⟩ := List.eq_append_cons_of_mem h
  unfold recordIn
  rw [record_colon hfront, takeWhile_ne hfront, dropWhile_ne hfront, fieldValue_eq_field]
  rfl

theorem record_of_isRecord (h : IsRecord line) : record line = .ok (recordIn line) := by
  obtain ⟨-, -, hcolon, hname⟩ := h
  rw [record_of_mem hcolon, if_neg hname]

theorem record_of_not_isRecord (hheader : ¬IsHeader line) (hread : ¬IsPassedOver line)
    (h : ¬IsRecord line) : record line = .error (faultIn line) := by
  unfold faultIn
  rw [if_neg hheader]
  by_cases hcolon : ':' ∈ line
  · have hname : trimList (line.takeWhile (· ≠ ':')) = [] :=
      Decidable.byContradiction fun hname => h ⟨hheader, hread, hcolon, hname⟩
    rw [record_of_mem hcolon, if_pos hname, if_pos hcolon]
  · rw [record_noColon hcolon, if_neg hcolon]

end line

section reading

def versionOf (ls : List (List Char)) : Option String := (ls.find? IsHeader).map versionIn

def recordsOf (ls : List (List Char)) : List Record := (ls.filter IsRecord).map recordIn

variable {before : List (List Char)} {line : List Char}

theorem versionOf_isSome_iff (ls : List (List Char)) :
    (versionOf ls).isSome = true ↔ ∃ l ∈ ls, IsHeader l := by
  simp [versionOf, List.find?_isSome]

theorem versionOf_concat (before : List (List Char)) (line : List Char) :
    versionOf (before ++ [line]) =
      (versionOf before).or (if IsHeader line then some (versionIn line) else none) := by
  unfold versionOf
  rw [List.find?_append, Option.map_or]
  by_cases h : IsHeader line
  · simp [h]
  · simp [h]

theorem recordsOf_concat (before : List (List Char)) (line : List Char) :
    recordsOf (before ++ [line]) =
      recordsOf before ++ if IsRecord line then [recordIn line] else [] := by
  unfold recordsOf
  rw [List.filter_append, List.map_append]
  by_cases h : IsRecord line
  · simp [h]
  · simp [h]

theorem decodeFrom_offends (h : Offends before line) (number : Nat) (rest : List (List Char)) :
    decodeFrom number (versionOf before) (recordsOf before).reverse (line :: rest) =
      .error (.atLine number (faultIn line)) := by
  rw [decodeFrom]
  rcases h with ⟨hheader, hbefore⟩ | ⟨hheader, hread, hrecord⟩
  · have hread : isIgnorable line = false := by
      simpa [← isIgnorable_iff] using hheader.not_isPassedOver
    rw [hread, version?_of_isHeader hheader]
    simp only [(versionOf_isSome_iff before).2 hbefore, faultIn, hheader, if_true]
    rfl
  · rw [if_neg fun h => hread ((isIgnorable_iff line).1 h), version?_of_not_isHeader hheader,
      record_of_not_isRecord hheader hread hrecord]

theorem decodeFrom_not_offends (h : ¬Offends before line) (number : Nat)
    (rest : List (List Char)) :
    decodeFrom number (versionOf before) (recordsOf before).reverse (line :: rest) =
      decodeFrom (number + 1) (versionOf (before ++ [line]))
        (recordsOf (before ++ [line])).reverse rest := by
  rw [decodeFrom, versionOf_concat, recordsOf_concat]
  by_cases hread : IsPassedOver line
  · have hheader : ¬IsHeader line := fun hheader => hheader.not_isPassedOver hread
    have hrecord : ¬IsRecord line := fun hrecord => hrecord.2.1 hread
    rw [if_pos ((isIgnorable_iff line).2 hread), if_neg hheader, if_neg hrecord, Option.or_none,
      List.append_nil]
  rw [if_neg fun h => hread ((isIgnorable_iff line).1 h)]
  by_cases hheader : IsHeader line
  · have hfirst : versionOf before = none := by
      rw [← Option.not_isSome_iff_eq_none, versionOf_isSome_iff]
      exact fun hbefore => h (.inl ⟨hheader, hbefore⟩)
    have hrecord : ¬IsRecord line := fun hrecord => hrecord.1 hheader
    rw [version?_of_isHeader hheader, hfirst, if_pos hheader, if_neg hrecord, List.append_nil]
    rfl
  · have hrecord : IsRecord line :=
      Decidable.byContradiction fun hrecord => h (.inr ⟨hheader, hread, hrecord⟩)
    rw [version?_of_not_isHeader hheader, record_of_isRecord hrecord, if_neg hheader, if_pos hrecord,
      Option.or_none, List.reverse_append]
    rfl

end reading

section clean

variable {before front rest : List (List Char)} {line : List Char}

theorem Clean.not_offends (h : Clean (front ++ line :: rest)) : ¬Offends front line := by
  have hline := h front.length (by simp)
  simpa using hline

theorem Clean.concat (h : Clean before) (hline : ¬Offends before line) : Clean (before ++ [line]) := by
  intro i hi
  rw [List.length_append, List.length_singleton] at hi
  by_cases hlt : i < before.length
  · rw [List.take_append_of_le_length (Nat.le_of_lt hlt), List.getElem_append_left hlt]
    exact h i hlt
  · obtain rfl : i = before.length := by omega
    simpa using hline

theorem clean_nil : Clean [] := fun i hi => absurd hi (Nat.not_lt_zero i)

theorem exists_first_offence (h : Clean before) (ls : List (List Char)) :
    Clean (before ++ ls) ∨
      ∃ front line rest, before ++ ls = front ++ line :: rest ∧ Clean front ∧ Offends front line := by
  induction ls generalizing before with
  | nil =>
    rw [List.append_nil]
    exact .inl h
  | cons line ls ih =>
    by_cases hline : Offends before line
    · exact .inr ⟨before, line, ls, rfl, h, hline⟩
    · have hrest := ih (h.concat hline)
      rw [List.append_assoc, List.singleton_append] at hrest
      exact hrest

theorem decodeFrom_clean (before middle : List (List Char)) (h : Clean (before ++ middle))
    (number : Nat) (rest : List (List Char)) :
    decodeFrom number (versionOf before) (recordsOf before).reverse (middle ++ rest) =
      decodeFrom (number + middle.length) (versionOf (before ++ middle))
        (recordsOf (before ++ middle)).reverse rest := by
  induction middle generalizing before number with
  | nil => rw [List.append_nil, List.nil_append, List.length_nil, Nat.add_zero]
  | cons line middle ih =>
    have hsplit : before ++ line :: middle = (before ++ [line]) ++ middle := by simp
    rw [List.cons_append, decodeFrom_not_offends h.not_offends, hsplit, ih _ (hsplit ▸ h),
      List.length_cons]
    congr 1
    omega

theorem versionOf_clean {ls : List (List Char)} (h : Clean ls) {header : List Char} (hmem : header ∈ ls)
    (hheader : IsHeader header) : versionOf ls = some (versionIn header) := by
  obtain ⟨front, rest, rfl⟩ := List.append_of_mem hmem
  have hfirst : front.find? (fun l => decide (IsHeader l)) = none := by
    rw [List.find?_eq_none]
    intro l hl hlheader
    exact h.not_offends (.inl ⟨hheader, l, hl, of_decide_eq_true hlheader⟩)
  unfold versionOf
  rw [List.find?_append, hfirst]
  simp [hheader]

end clean

section text

variable {text : String}

theorem decode_eq_decodeFrom (text : String) : decode text =
    decodeFrom 1 (versionOf []) (recordsOf []).reverse (linesIn text) := by
  unfold decode linesIn
  rw [lines_eq_linesOf]
  rfl

theorem decode_blamed {front rest : List (List Char)} {line : List Char}
    (hsplit : linesIn text = front ++ line :: rest) (hfront : Clean front)
    (hline : Offends front line) :
    decode text = .error (.atLine (front.length + 1) (faultIn line)) := by
  have hprefix := decodeFrom_clean [] front hfront 1 (line :: rest)
  rw [List.nil_append] at hprefix
  rw [decode_eq_decodeFrom, hsplit, hprefix, decodeFrom_offends hline, Nat.add_comm]

theorem decode_clean (h : Clean (linesIn text)) : decode text =
    decodeFrom (1 + (linesIn text).length) (versionOf (linesIn text))
      (recordsOf (linesIn text)).reverse [] := by
  have hall := decodeFrom_clean [] (linesIn text) h 1 []
  rw [List.append_nil, List.nil_append] at hall
  rw [decode_eq_decodeFrom, hall]

theorem decode_unversioned (h : Clean (linesIn text)) (hnone : ∀ line ∈ linesIn text, ¬IsHeader line) :
    decode text = .error .noVersion := by
  have hversion : versionOf (linesIn text) = none := by
    rw [← Option.not_isSome_iff_eq_none, versionOf_isSome_iff]
    exact fun ⟨line, hmem, hheader⟩ => hnone line hmem hheader
  rw [decode_clean h, hversion]
  rfl

theorem decode_read (h : Clean (linesIn text)) {header : List Char} (hmem : header ∈ linesIn text)
    (hheader : IsHeader header) :
    decode text = .ok ⟨versionIn header, ((linesIn text).filter IsRecord).map recordIn⟩ := by
  rw [decode_clean h, versionOf_clean h hmem hheader, decodeFrom, List.reverse_reverse]
  rfl

end text

/-- What the reading of a text comes to: the first line that offends is blamed, and a text without one
is read in full as long as it has a header. -/
theorem decode_first_offence (text : String) :
    (∀ front line rest, linesIn text = front ++ line :: rest → Clean front → Offends front line →
      decode text = .error (.atLine (front.length + 1) (faultIn line))) ∧
    (Clean (linesIn text) → (∀ line ∈ linesIn text, ¬IsHeader line) →
      decode text = .error .noVersion) ∧
    (Clean (linesIn text) → ∀ header ∈ linesIn text, IsHeader header →
      decode text = .ok ⟨versionIn header, ((linesIn text).filter IsRecord).map recordIn⟩) ∧
    ((∃ s, decode text = .ok s) ↔ Clean (linesIn text) ∧ ∃ header ∈ linesIn text, IsHeader header) := by
  refine ⟨fun front line rest => decode_blamed, decode_unversioned,
    fun h header hmem => decode_read h hmem, ?_, ?_⟩
  · rintro ⟨s, hs⟩
    rcases exists_first_offence clean_nil (linesIn text) with
      h | ⟨front, line, rest, hsplit, hfront, hline⟩
    · refine ⟨h, Decidable.byContradiction fun hnone => ?_⟩
      rw [decode_unversioned h fun line hmem hheader => hnone ⟨line, hmem, hheader⟩] at hs
      cases hs
    · rw [decode_blamed hsplit hfront hline] at hs
      cases hs
  · rintro ⟨h, header, hmem, hheader⟩
    exact ⟨_, decode_read h hmem hheader⟩

/-- A text with a second version, but a line without a name before it. -/
def nameless : String := "A1: 1\n@version: 1\r\n\n: x\n@version: 2"

/-- A text that is read, with its version behind two spaces and a line feed in a formula. -/
def spaced : String := " # c\r\nB1 : =A1\\n\n@version:  v\r\nA1:5"

theorem decode_first_offence_samples :
    decode nameless = .error (.atLine 4 .noName) ∧
      decode spaced = .ok ⟨" v", [⟨"B1", "=A1\n"⟩, ⟨"A1", "5"⟩]⟩ ∧
      decode "A1: 1" = .error .noVersion := by
  refine ⟨?_, ?_, ?_⟩
  · have hsplit : linesIn nameless = ["A1: 1", "@version: 1", ""].map String.toList ++
        ": x".toList :: ["@version: 2".toList] := by decide +kernel
    exact (decode_first_offence nameless).1 _ _ _ hsplit (by decide +kernel) (by decide +kernel)
  · have hclean : Clean (linesIn spaced) := by decide +kernel
    have hmem : "@version:  v".toList ∈ linesIn spaced := by decide +kernel
    rw [(decode_first_offence spaced).2.2.1 hclean _ hmem (by decide +kernel)]
    rfl
  · exact (decode_first_offence "A1: 1").2.1 (by decide +kernel) (by decide +kernel)

end Worksheet.Lines
