import Worksheet.Proofs.Text.Lines
import Worksheet.Proofs.Text.Runs
import Worksheet.Snapshot.Lines

set_option autoImplicit false

/-!
# The line format read back

A snapshot is read from its text in the line format as it was, whatever its version and contents are, as
long as no name of a record looks like something else.
-/
namespace Worksheet.Lines
open Worksheet.Text

/-- A name that is found again in front of its colon. -/
structure NameFits (name : List Char) : Prop where
  ne_nil : name ≠ []
  trimmed : trimList name = name
  noColon : ':' ∉ name
  noFeed : '\n' ∉ name
  noComment : name.head? ≠ some '#'
  noMark : name ≠ "@version".toList

section escaping

theorem not_mem_escape {d : Char} (hd : d = '\n' ∨ d = '\r') (cs : List Char) : d ∉ escape cs := by
  intro hmem
  obtain ⟨c, -, hc⟩ := List.mem_flatMap.1 hmem
  unfold escapeChar at hc
  have hclear : ∀ s ∈ [['\\', '\\'], ['\\', 'n'], ['\\', 'r']], d ∉ s := by
    rcases hd with rfl | rfl
    · decide
    · decide
  split at hc
  · exact hclear _ (by decide) hc
  · exact hclear _ (by decide) hc
  · exact hclear _ (by decide) hc
  · rename_i hfeed hreturn
    rcases hd with rfl | rfl
    · exact hfeed (List.mem_singleton.1 hc).symm
    · exact hreturn (List.mem_singleton.1 hc).symm

theorem fieldValue_escape (cs : List Char) : fieldValue (' ' :: escape cs) = String.ofList cs := by
  change String.ofList (unescape (escape cs)) = _
  rw [unescape_escape]

end escaping

section encoding

def comment : List Char := "# Tallysheet snapshot".toList

def versionLine (version : String) : List Char := versionMark ++ ' ' :: escape version.toList

def recordLine (r : Record) : List Char :=
  r.name.toList ++ ':' :: ' ' :: escape r.contents.toList

theorem encodeRecord_eq (r : Record) : encodeRecord r = recordLine r ++ ['\n'] := by
  unfold encodeRecord recordLine
  rw [List.append_assoc, List.append_assoc, List.append_assoc]
  rfl

theorem toList_encode (s : Snapshot) : (encode s).toList =
    comment ++ '\n' :: (versionLine s.version ++ '\n' :: s.records.flatMap encodeRecord) := by
  have hcomment : "# Tallysheet snapshot\n".toList = comment ++ ['\n'] := by decide
  unfold encode versionLine
  rw [String.toList_ofList, hcomment]
  simp only [List.append_assoc, List.cons_append, List.nil_append]

theorem not_mem_field {d : Char} (hd : d = '\n' ∨ d = '\r') (contents : String) :
    d ∉ ':' :: ' ' :: escape contents.toList := by
  have hescape := not_mem_escape hd contents.toList
  rcases hd with rfl | rfl
  · simp [hescape]
  · simp [hescape]

theorem isLine_field {front : List Char} (h : '\n' ∉ front) (contents : String) :
    IsLine (front ++ ':' :: ' ' :: escape contents.toList) :=
  isLine_append h (List.cons_ne_nil _ _) (not_mem_field (.inl rfl) contents)
    (not_mem_field (.inr rfl) contents)

theorem versionLine_eq (version : String) :
    versionLine version = "@version".toList ++ ':' :: ' ' :: escape version.toList := rfl

theorem lines_encode (s : Snapshot) : lines (encode s).toList =
    comment :: versionLine s.version :: lines (s.records.flatMap encodeRecord) := by
  have hcomment : IsLine comment := ⟨by decide, by decide⟩
  have hversion : IsLine (versionLine s.version) := by
    rw [versionLine_eq]
    exact isLine_field (by decide) s.version
  rw [toList_encode, lines_append hcomment, lines_append hversion]

theorem lines_records {records : List Record} (h : ∀ r ∈ records, '\n' ∉ r.name.toList) :
    lines (records.flatMap encodeRecord) = records.map recordLine := by
  have hrecords : records.flatMap encodeRecord =
      (records.map recordLine).flatMap fun l => l ++ ['\n'] := by
    rw [List.flatMap_map]
    exact congrArg records.flatMap (funext encodeRecord_eq)
  rw [hrecords]
  refine lines_flatMap fun l hl => ?_
  obtain ⟨r, hr, rfl⟩ := List.mem_map.1 hl
  exact isLine_field (h r hr) r.contents

end encoding

section colon

variable {front : List Char}

theorem isIgnorable_eq (line : List Char) :
    isIgnorable line = (trimList line).head?.all (· == '#') := by
  unfold isIgnorable
  cases trimList line with
  | nil => rfl
  | cons c cs => rfl

theorem isIgnorable_colon (front back : List Char) :
    isIgnorable (front ++ ':' :: back) = ((trimList front).head? == some '#') := by
  obtain ⟨ds, hds⟩ := trimList_cons (c := ':') (by decide) back
  rw [isIgnorable_eq, head?_trimList_append, hds]
  cases (trimList front).head? with
  | none => rfl
  | some c => rfl

theorem version?_colon (h : ':' ∉ front) (back : List Char) :
    version? (front ++ ':' :: back) =
      if front = "@version".toList then some (fieldValue back) else none := by
  have hmark : versionMark = "@version".toList ++ [':'] := by decide
  unfold version?
  by_cases hfront : front = "@version".toList
  · have hline : front ++ ':' :: back = versionMark ++ back := by
      rw [hfront, hmark, List.append_assoc, List.singleton_append]
    rw [if_pos hfront, hline, if_pos (List.isPrefixOf_iff_prefix.2 (List.prefix_append _ _)),
      List.drop_left]
  · rw [if_neg hfront, if_neg]
    intro hprefix
    obtain ⟨rest, hrest⟩ := List.isPrefixOf_iff_prefix.1 hprefix
    rw [hmark, List.append_assoc, List.singleton_append] at hrest
    have hcolon : ':' ∉ "@version".toList := by decide
    have hbefore := takeWhile_ne hcolon rest
    rw [hrest, takeWhile_ne h] at hbefore
    exact hfront hbefore

theorem record_colon (h : ':' ∉ front) (back : List Char) :
    record (front ++ ':' :: back) =
      if trimList front = [] then .error .noName
      else .ok ⟨String.ofList (trimList front), fieldValue back⟩ := by
  unfold record
  rw [takeWhile_ne h, dropWhile_ne h]
  dsimp only
  cases trimList front with
  | nil => rfl
  | cons c cs => rfl

theorem record_noColon {line : List Char} (h : ':' ∉ line) : record line = .error .noColon := by
  have hdrop : line.dropWhile (· ≠ ':') = [] :=
    List.dropWhile_eq_nil_iff.2 fun c hc => decide_eq_true fun he => h (he ▸ hc)
  unfold record
  rw [hdrop]

end colon

section decoding

theorem version?_versionLine (version : String) : version? (versionLine version) = some version := by
  rw [versionLine_eq, version?_colon (by decide), if_pos rfl, fieldValue_escape,
    String.ofList_toList]

theorem isIgnorable_versionLine (version : String) : isIgnorable (versionLine version) = false := by
  rw [versionLine_eq, isIgnorable_colon]
  decide

variable {r : Record} (h : NameFits r.name.toList)
include h

theorem version?_recordLine : version? (recordLine r) = none := by
  unfold recordLine
  rw [version?_colon h.noColon, if_neg h.noMark]

theorem isIgnorable_recordLine : isIgnorable (recordLine r) = false := by
  unfold recordLine
  rw [isIgnorable_colon, h.trimmed]
  exact beq_false_of_ne h.noComment

theorem record_recordLine : record (recordLine r) = .ok r := by
  unfold recordLine
  rw [record_colon h.noColon, h.trimmed, if_neg h.ne_nil, fieldValue_escape, String.ofList_toList,
    String.ofList_toList]

omit h

theorem decodeFrom_records_append {records : List Record}
    (h : ∀ r ∈ records, NameFits r.name.toList) (number : Nat) (version : String)
    (before : List Record) (rest : List (List Char)) :
    decodeFrom number (some version) before (records.map recordLine ++ rest) =
      decodeFrom (number + records.length) (some version) (records.reverse ++ before) rest := by
  induction records generalizing number before with
  | nil => rfl
  | cons r records ih =>
    have hr := h r List.mem_cons_self
    rw [List.map_cons, List.cons_append, decodeFrom, isIgnorable_recordLine hr,
      version?_recordLine hr, record_recordLine hr]
    dsimp only
    rw [if_neg (by decide), ih fun u hu => h u (List.mem_cons_of_mem r hu), List.reverse_cons,
      List.append_assoc, List.singleton_append, List.length_cons, Nat.add_assoc, Nat.add_comm 1]

theorem decodeFrom_records {records : List Record} (h : ∀ r ∈ records, NameFits r.name.toList)
    (number : Nat) (version : String) (before : List Record) :
    decodeFrom number (some version) before (records.map recordLine) =
      .ok ⟨version, before.reverse ++ records⟩ := by
  have hrecords := decodeFrom_records_append h number version before []
  rw [List.append_nil] at hrecords
  rw [hrecords, decodeFrom, List.reverse_append, List.reverse_reverse]

theorem decodeVersionFrom_records {records : List Record}
    (h : ∀ r ∈ records, NameFits r.name.toList) (number : Nat) (version : String) :
    decodeVersionFrom number (some version) (records.map recordLine) = .ok version := by
  induction records generalizing number with
  | nil => rfl
  | cons r records ih =>
    rw [List.map_cons, decodeVersionFrom, version?_recordLine (h r List.mem_cons_self)]
    exact ih (fun u hu => h u (List.mem_cons_of_mem r hu)) _

end decoding

theorem decode_encode_eq (s : Snapshot) : decode (encode s) =
    decodeFrom 3 (some s.version) [] (lines (s.records.flatMap encodeRecord)) := by
  have hcomment : isIgnorable comment = true := by decide
  unfold decode
  rw [lines_encode, decodeFrom, if_pos hcomment, decodeFrom, isIgnorable_versionLine,
    version?_versionLine]
  rfl

/-- A snapshot is read back from the line format. -/
theorem decode_encode {s : Snapshot} (h : ∀ r ∈ s.records, NameFits r.name.toList) :
    decode (encode s) = .ok s := by
  rw [decode_encode_eq, lines_records fun r hr => (h r hr).noFeed, decodeFrom_records h]
  rfl

theorem decodeVersion_encode {s : Snapshot} (h : ∀ r ∈ s.records, NameFits r.name.toList) :
    decodeVersion (encode s) = .ok s.version := by
  have hcomment : version? comment = none := by decide
  unfold decodeVersion
  rw [lines_encode, lines_records fun r hr => (h r hr).noFeed, decodeVersionFrom, hcomment]
  dsimp only
  rw [decodeVersionFrom, version?_versionLine]
  dsimp only
  rw [if_neg (by decide), decodeVersionFrom_records h]

end Worksheet.Lines
