import Worksheet.Proofs.Snapshot.LineReading
import Worksheet.Proofs.Snapshot.Xml

set_option autoImplicit false

/-!
# Snapshots that are read back as they were

In both formats only the names of records decide whether a snapshot survives being written and read
again. The line format keeps the names that it can find in front of a colon, and the XML format those
without blanks at their ends.
-/
namespace Worksheet

namespace Lines

/-- A snapshot is read back from the line format exactly if all its names fit. Versions and contents have
no part in this: with others, the same records are read, or the text is refused for the same fault. -/
theorem decode_encode_iff_nameFits (s : Snapshot) :
    (decode (encode s) = .ok s ↔ ∀ r ∈ s.records, NameFits r.name.toList) ∧
      ∀ t : Snapshot, t.records.map Record.name = s.records.map Record.name →
        SameNames (decode (encode t)) (decode (encode s)) := by
  refine ⟨⟨fun h => ?_, decode_encode⟩, fun t => sameNames_decode_encode⟩
  have hfeed : ∀ r ∈ s.records, '\n' ∉ r.name.toList := by
    intro r hr
    by_cases hmark : r.name.toList = "@version".toList
    · rw [hmark]
      decide
    · exact (nameFits_of_decode h r hr hmark).noFeed
  intro r hr
  refine nameFits_of_decode h r hr fun hmark => ?_
  have hheader : recordLine r = versionLine r.contents := by
    unfold recordLine
    rw [hmark, versionLine_eq]
  rw [decode_encode_eq, lines_records hfeed] at h
  rcases version?_of_decodeFrom h (recordLine r) (List.mem_map_of_mem hr) with hignored | hnone
  · rw [hheader, isIgnorable_versionLine] at hignored
    cases hignored
  · rw [hheader, version?_versionLine] at hnone
    cases hnone

/-- A name that makes a comment of its line, and contents that look like other lines. -/
def misleading (name : String) : Snapshot := ⟨"1\n", [⟨name, "x\r\nB1: y"⟩, ⟨"A2", "\n@version: 2"⟩]⟩

theorem decode_encode_iff_nameFits_misleading :
    decode (encode (misleading "#A1")) ≠ .ok (misleading "#A1") ∧
      SameNames (decode (encode ⟨"1", [⟨"#A1", ""⟩, ⟨"A2", ""⟩]⟩))
        (decode (encode (misleading "#A1"))) := by
  constructor
  · intro h
    have hkept := (decode_encode_iff_nameFits (misleading "#A1")).1.1 h
    exact (hkept ⟨"#A1", "x\r\nB1: y"⟩ List.mem_cons_self).noComment rfl
  · have hsame := (decode_encode_iff_nameFits (misleading "#A1")).2
    apply hsame
    rfl

theorem recordLine_of_mark {r : Record} (h : r.name.toList = "@version".toList) :
    recordLine r = versionLine r.contents := by
  unfold recordLine
  rw [h, versionLine_eq]

theorem not_mem_name_of_decode {text : String} {s : Snapshot} (h : decode text = .ok s) :
    ∀ r ∈ s.records, '\n' ∉ r.name.toList := by
  intro r hr
  by_cases hmark : r.name.toList = "@version".toList
  · rw [hmark]
    decide
  · exact (nameFits_of_decode h r hr hmark).noFeed

/-- Whatever was read can be written and is read again as it was, unless a record is named like the
header. Its line is then refused as a second header. -/
theorem decode_encode_of_decode {text : String} {s : Snapshot} (h : decode text = .ok s) :
    (decode (encode s) = .ok s ↔ ∀ r ∈ s.records, r.name ≠ "@version") ∧
      ∀ before r after, s.records = before ++ r :: after → (∀ u ∈ before, u.name ≠ "@version") →
        r.name = "@version" →
          decode (encode s) = .error (.atLine (before.length + 3) .secondVersion) := by
  have hfits : ∀ r ∈ s.records, r.name ≠ "@version" → NameFits r.name.toList := fun r hr hname =>
    nameFits_of_decode h r hr (mt String.toList_inj.1 hname)
  have hrefused : ∀ before r after, s.records = before ++ r :: after →
      (∀ u ∈ before, u.name ≠ "@version") → r.name = "@version" →
        decode (encode s) = .error (.atLine (before.length + 3) .secondVersion) := by
    intro before r after hrecords hbefore hname
    have hmem : ∀ u ∈ before, u ∈ s.records := fun u hu => by
      rw [hrecords]
      exact List.mem_append_left _ hu
    rw [decode_encode_eq, lines_records (not_mem_name_of_decode h), hrecords, List.map_append,
      decodeFrom_records_append fun u hu => hfits u (hmem u hu) (hbefore u hu), List.map_cons,
      recordLine_of_mark (congrArg String.toList hname), decodeFrom, isIgnorable_versionLine,
      version?_versionLine, Nat.add_comm 3]
    rfl
  refine ⟨⟨fun hread r hr hname => ?_, fun hnames => ?_⟩, hrefused⟩
  · -- the first record with that name is refused
    have hfound : (s.records.find? (·.name == "@version")).isSome :=
      List.find?_isSome.2 ⟨r, hr, beq_iff_eq.2 hname⟩
    obtain ⟨u, hfirst⟩ := Option.isSome_iff_exists.1 hfound
    obtain ⟨hu, before, after, hrecords, hbefore⟩ := List.find?_eq_some_iff_append.1 hfirst
    have hnames : ∀ v ∈ before, v.name ≠ "@version" := fun v hv => by simpa using hbefore v hv
    rw [hrefused before u after hrecords hnames (beq_iff_eq.1 hu)] at hread
    cases hread
  · exact decode_encode fun r hr => hfits r hr (hnames r hr)

theorem decode_encode_of_decode_loose :
    decode "@version:1\n# x\n A1 :x\\q\\n" = .ok ⟨"1", [⟨"A1", "x\\q\n"⟩]⟩ ∧
      decode (encode ⟨"1", [⟨"A1", "x\\q\n"⟩]⟩) = .ok ⟨"1", [⟨"A1", "x\\q\n"⟩]⟩ := by
  have hread : decode "@version:1\n# x\n A1 :x\\q\\n" = .ok ⟨"1", [⟨"A1", "x\\q\n"⟩]⟩ := by rfl
  refine ⟨hread, (decode_encode_of_decode hread).1.2 fun r hr => ?_⟩
  obtain rfl := List.mem_singleton.1 hr
  decide

/-- An indented header is a record, and no record any more once it is written. -/
theorem decode_encode_ne_indented :
    ∃ s, decode "@version: 1\n @version: 2\n" = .ok s ∧
      decode (encode s) = .error (.atLine 3 .secondVersion) :=
  ⟨⟨"1", [⟨"@version", "2"⟩]⟩, by rfl, by rfl⟩

end Lines

namespace Markup

/-- What is written for the characters that markup is made of, in the order in which they are replaced. -/
def replacements : List (Char × List Char) :=
  [('&', "&amp;".toList), ('<', "&lt;".toList), ('>', "&gt;".toList), ('"', "&quot;".toList),
    ('\'', "&apos;".toList), ('\r', "&#13;".toList)]

def replace (cs : List Char) (r : Char × List Char) : List Char :=
  cs.flatMap fun c => if c = r.1 then r.2 else [c]

theorem foldl_replace_append (rs : List (Char × List Char)) (cs ds : List Char) :
    rs.foldl replace (cs ++ ds) = rs.foldl replace cs ++ rs.foldl replace ds := by
  induction rs generalizing cs ds with
  | nil => rfl
  | cons r rs ih =>
    have hfirst : replace (cs ++ ds) r = replace cs r ++ replace ds r := List.flatMap_append
    rw [List.foldl_cons, hfirst, ih]
    rfl

theorem foldl_replace_of_ne {rs : List (Char × List Char)} {c : Char} (h : ∀ r ∈ rs, c ≠ r.1) :
    rs.foldl replace [c] = [c] := by
  induction rs with
  | nil => rfl
  | cons r rs ih =>
    have hfirst : replace [c] r = [c] := by
      unfold replace
      rw [List.flatMap_singleton, if_neg (h r List.mem_cons_self)]
    rw [List.foldl_cons, hfirst, ih fun r' hr' => h r' (List.mem_cons_of_mem r hr')]

theorem escapeChar_eq_foldl (c : Char) : escapeChar c = replacements.foldl replace [c] := by
  unfold escapeChar
  split
  · decide
  · decide
  · decide
  · decide
  · decide
  · decide
  · rename_i hamp hlt hgt hquot hapos hreturn
    refine (foldl_replace_of_ne fun r hr => ?_).symm
    simp only [replacements, List.mem_cons, List.not_mem_nil, or_false] at hr
    rcases hr with rfl | rfl | rfl | rfl | rfl | rfl
    · exact hamp
    · exact hlt
    · exact hgt
    · exact hquot
    · exact hapos
    · exact hreturn

/-- Ampersands are replaced first, so that none of those written for other characters is. -/
theorem escape_eq_foldl (cs : List Char) : escape cs = replacements.foldl replace cs := by
  induction cs with
  | nil => rfl
  | cons c cs ih =>
    have hsplit : c :: cs = [c] ++ cs := rfl
    rw [hsplit, foldl_replace_append, ← escapeChar_eq_foldl, ← ih]
    rfl

end Markup

namespace Xml

/-- A snapshot is read back from the XML format with the blanks around its names dropped, so as it was
exactly if there are none. Its version is always read back. This is so although the characters of markup
are replaced in one text after the other. -/
theorem decode_encode_iff_trimmed (s : Snapshot) :
    decode (encode s) = .ok { s with records := s.records.map trimName } ∧
      (decode (encode s) = .ok s ↔ ∀ r ∈ s.records, Text.trim r.name = r.name) ∧
      decodeVersion (encode s) = .ok s.version ∧
      ∀ cs, Markup.escape cs = Markup.replacements.foldl Markup.replace cs := by
  have same : ({ s with records := s.records.map trimName } : Snapshot) = s ↔
      ∀ r ∈ s.records, Text.trim r.name = r.name := by
    obtain ⟨version, records⟩ := s
    rw [Snapshot.mk.injEq, and_iff_right rfl]
    conv_lhs => rhs; rw [← List.map_id records]
    rw [List.map_inj_left]
    exact forall₂_congr fun r _ => trimName_eq_self_iff
  refine ⟨decode_encode s, ?_, decodeVersion_encode s, Markup.escape_eq_foldl⟩
  rw [decode_encode, Except.ok.injEq, same]

end Xml
end Worksheet
