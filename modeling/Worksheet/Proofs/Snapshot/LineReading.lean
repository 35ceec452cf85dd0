import Mathlib.Data.List.Forall2
import Worksheet.Proofs.Snapshot.Lines

set_option autoImplicit false

/-!
# What is read of the line format

Each record that is read comes from a line of its own, and its name is found again where it is written.
What kind of line one is, and which name it gives, depends only on what stands before its first colon, so
that no version and no contents change that.
-/
namespace Worksheet.Lines
open Worksheet.Text

/-- What one line does to the version and the records that were read before it, last first. -/
inductive LineRead (line : List Char) :
    Option String → List Record → Option String → List Record → Prop where
  | ignored {version : Option String} {records : List Record} (h : isIgnorable line = true) :
      LineRead line version records version records
  | header {version : String} {records : List Record} (h : isIgnorable line = false)
      (hv : version? line = some version) : LineRead line none records (some version) records
  | record {version : Option String} {records : List Record} {r : Record}
      (h : isIgnorable line = false) (hv : version? line = none) (hr : record line = .ok r) :
      LineRead line version records version (r :: records)

theorem lineRead_of_decodeFrom {number : Nat} {version : Option String} {before : List Record}
    {line : List Char} {rest : List (List Char)} {s : Snapshot}
    (h : decodeFrom number version before (line :: rest) = .ok s) :
    ∃ version' before', LineRead line version before version' before' ∧
      decodeFrom (number + 1) version' before' rest = .ok s := by
  rw [decodeFrom] at h
  split at h
  · rename_i hignorable
    exact ⟨version, before, .ignored hignorable, h⟩
  rename_i hread
  rw [Bool.not_eq_true] at hread
  split at h
  · rename_i v hv
    cases version with
    | none => exact ⟨some v, before, .header hread hv, h⟩
    | some _ => cases h
  · rename_i hv
    split at h
    · rename_i r hr
      exact ⟨version, r :: before, .record hread hv hr, h⟩
    · cases h

section accepted

variable {number : Nat} {version : Option String} {before : List Record} {ls : List (List Char)}
  {s : Snapshot}

theorem exists_line_of_decodeFrom (h : decodeFrom number version before ls = .ok s) :
    ∀ r ∈ s.records, r ∈ before ∨ ∃ line ∈ ls, isIgnorable line = false ∧ record line = .ok r := by
  induction ls generalizing number version before with
  | nil =>
    cases version with
    | none => cases h
    | some v =>
      obtain rfl := Except.ok.inj h
      exact fun r hr => .inl (List.mem_reverse.1 hr)
  | cons line rest ih =>
    obtain ⟨version', before', hline, h⟩ := lineRead_of_decodeFrom h
    intro r hr
    rcases ih h r hr with hbefore | ⟨line', hmem, hfrom⟩
    · cases hline with
      | ignored _ | header _ _ => exact .inl hbefore
      | record hread _ hrecord =>
        rcases List.mem_cons.1 hbefore with rfl | hbefore
        · exact .inr ⟨line, List.mem_cons_self, hread, hrecord⟩
        · exact .inl hbefore
    · exact .inr ⟨line', List.mem_cons_of_mem line hmem, hfrom⟩

theorem version?_of_decodeFrom {v : String} (h : decodeFrom number (some v) before ls = .ok s) :
    ∀ line ∈ ls, isIgnorable line = true ∨ version? line = none := by
  induction ls generalizing number before with
  | nil => exact fun line hmem => absurd hmem List.not_mem_nil
  | cons line rest ih =>
    obtain ⟨version', before', hline, h⟩ := lineRead_of_decodeFrom h
    intro line' hmem
    rcases List.mem_cons.1 hmem with rfl | hmem
    · cases hline with
      | ignored hignorable => exact .inl hignorable
      | record _ hv _ => exact .inr hv
    · cases hline with
      | ignored _ | record _ _ _ => exact ih h line' hmem

end accepted

section names

theorem record_eq_ok {line : List Char} {r : Record} (h : record line = .ok r) :
    ∃ front back, line = front ++ ':' :: back ∧ ':' ∉ front ∧ trimList front ≠ [] ∧
      r = ⟨String.ofList (trimList front), fieldValue back⟩ := by
  by_cases hcolon : ':' ∈ line
  · obtain ⟨front, back, rfl, hfront⟩ := List.eq_append_cons_of_mem hcolon
    rw [record_colon hfront] at h
    split at h
    · cases h
    · rename_i hname
      exact ⟨front, back, rfl, hfront, hname, (Except.ok.inj h).symm⟩
  · rw [record_noColon hcolon] at h
    cases h

theorem nameFits_of_record {line : List Char} {r : Record} (hfeed : '\n' ∉ line)
    (hread : isIgnorable line = false) (h : record line = .ok r)
    (hmark : r.name.toList ≠ "@version".toList) : NameFits r.name.toList := by
  obtain ⟨front, back, rfl, hcolon, hne, rfl⟩ := record_eq_ok h
  dsimp only at hmark ⊢
  rw [String.toList_ofList] at hmark ⊢
  rw [isIgnorable_colon] at hread
  exact ⟨hne, trimList_trimList front, fun hmem => hcolon (mem_of_mem_trimList hmem),
    fun hmem => hfeed (List.mem_append_left _ (mem_of_mem_trimList hmem)),
    ne_of_beq_false hread, hmark⟩

theorem nameFits_of_decode {text : String} {s : Snapshot} (h : decode text = .ok s) :
    ∀ r ∈ s.records, r.name.toList ≠ "@version".toList → NameFits r.name.toList := by
  intro r hr
  rcases exists_line_of_decodeFrom h r hr with hnone | ⟨line, hmem, hread, hrecord⟩
  · cases hnone
  · exact nameFits_of_record (not_mem_of_mem_lines hmem) hread hrecord

end names

section shape

/-- Both texts are refused for the same fault, or give records with the same names in the same order. -/
inductive SameNames : Except DecodeError Snapshot → Except DecodeError Snapshot → Prop where
  | refused (e : DecodeError) : SameNames (.error e) (.error e)
  | read {s t : Snapshot} (h : s.records.map Record.name = t.records.map Record.name) :
      SameNames (.ok s) (.ok t)

/-- The same line, except perhaps for what stands after its first colon. -/
inductive LikeLine : List Char → List Char → Prop where
  | same (line : List Char) : LikeLine line line
  | colon {front : List Char} (h : ':' ∉ front) (back back' : List Char) :
      LikeLine (front ++ ':' :: back) (front ++ ':' :: back')

theorem likeLine_append (front back back' : List Char) :
    LikeLine (front ++ ':' :: back) (front ++ ':' :: back') := by
  by_cases hcolon : ':' ∈ front
  · obtain ⟨front, between, rfl, hfront⟩ := List.eq_append_cons_of_mem hcolon
    simpa using LikeLine.colon hfront (between ++ ':' :: back) (between ++ ':' :: back')
  · exact .colon hcolon back back'

theorem LikeLine.isIgnorable_eq {line line' : List Char} (h : LikeLine line line') :
    isIgnorable line = isIgnorable line' := by
  cases h with
  | same => rfl
  | colon _ back back' => rw [isIgnorable_colon, isIgnorable_colon]

theorem LikeLine.version?_cases {line line' : List Char} (h : LikeLine line line') :
    (version? line = none ∧ version? line' = none) ∨
      ∃ v v', version? line = some v ∧ version? line' = some v' := by
  cases h with
  | same =>
    cases hv : version? line with
    | none => exact .inl ⟨rfl, rfl⟩
    | some v => exact .inr ⟨v, v, rfl, rfl⟩
  | colon hfront back back' =>
    rw [version?_colon hfront, version?_colon hfront]
    split
    · exact .inr ⟨_, _, rfl, rfl⟩
    · exact .inl ⟨rfl, rfl⟩

theorem LikeLine.record_cases {line line' : List Char} (h : LikeLine line line') :
    (∃ fault, record line = .error fault ∧ record line' = .error fault) ∨
      ∃ r r', record line = .ok r ∧ record line' = .ok r' ∧ r.name = r'.name := by
  cases h with
  | same =>
    cases hr : record line with
    | error fault => exact .inl ⟨fault, rfl, rfl⟩
    | ok r => exact .inr ⟨r, r, rfl, rfl, rfl⟩
  | colon hfront back back' =>
    rw [record_colon hfront, record_colon hfront]
    split
    · exact .inl ⟨_, rfl, rfl⟩
    · exact .inr ⟨_, _, rfl, rfl, rfl⟩

theorem sameNames_decodeFrom {ls ls' : List (List Char)} (h : List.Forall₂ LikeLine ls ls')
    (number : Nat) (v v' : String) {before before' : List Record}
    (hbefore : before.map Record.name = before'.map Record.name) :
    SameNames (decodeFrom number (some v) before ls) (decodeFrom number (some v') before' ls') := by
  induction h generalizing number before before' with
  | nil =>
    refine .read ?_
    rw [List.map_reverse, List.map_reverse, hbefore]
  | @cons line line' ls ls' hline _ ih =>
    rw [decodeFrom, decodeFrom, hline.isIgnorable_eq]
    split
    · exact ih (number + 1) hbefore
    rcases hline.version?_cases with ⟨hv, hv'⟩ | ⟨_, _, hv, hv'⟩
    · rw [hv, hv']
      rcases hline.record_cases with ⟨fault, hr, hr'⟩ | ⟨r, r', hr, hr', hname⟩
      · rw [hr, hr']
        exact .refused _
      · rw [hr, hr']
        refine ih (number + 1) ?_
        rw [List.map_cons, List.map_cons, hname, hbefore]
    · rw [hv, hv']
      exact .refused _

theorem likeLines_records {records records' : List Record}
    (h : records.map Record.name = records'.map Record.name) :
    List.Forall₂ LikeLine (lines (records.flatMap encodeRecord))
      (lines (records'.flatMap encodeRecord)) := by
  induction records generalizing records' with
  | nil =>
    obtain rfl : records' = [] := List.map_eq_nil_iff.1 h.symm
    rw [List.flatMap_nil, lines]
    exact .nil
  | cons r records ih =>
    obtain ⟨r', records', rfl, hname, hrest⟩ := List.map_eq_cons_iff.1 h.symm
    obtain ⟨ls, l, hlines⟩ := lines_append_isLine r.name.toList
    have hencoded {u : Record} (hu : u.name = r.name) (us : List Record) :
        lines ((u :: us).flatMap encodeRecord) =
          ls ++ (l ++ ':' :: ' ' :: escape u.contents.toList) :: lines (us.flatMap encodeRecord) := by
      rw [← hlines _ _ (List.cons_ne_nil _ _) (isLine_field List.not_mem_nil u.contents)]
      rw [List.flatMap_cons, encodeRecord_eq]
      unfold recordLine
      rw [hu]
      simp only [List.append_assoc, List.cons_append, List.nil_append]
    rw [hencoded rfl, hencoded hname]
    exact List.rel_append (List.forall₂_same.2 fun line _ => .same line)
      (.cons (likeLine_append l _ _) (ih hrest.symm))

/-- Whatever the names are, versions and contents do not decide what is refused and which records are
read. -/
theorem sameNames_decode_encode {s t : Snapshot}
    (h : s.records.map Record.name = t.records.map Record.name) :
    SameNames (decode (encode s)) (decode (encode t)) := by
  rw [decode_encode_eq, decode_encode_eq]
  exact sameNames_decodeFrom (likeLines_records h) 3 s.version t.version rfl

end shape

end Worksheet.Lines
