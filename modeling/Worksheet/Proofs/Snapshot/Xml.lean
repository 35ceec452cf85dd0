import Worksheet.Proofs.Markup.Reader
import Worksheet.Snapshot.Xml

set_option autoImplicit false

/-!
# The XML format read back

A snapshot is read from its text in the XML format as it was, whatever its version and contents are, only
that blanks around the names of records are dropped.
-/
namespace Worksheet.Xml
open Worksheet.Markup

section running

/-- The state after events, the places of which matter only to faults. -/
def run (document : List Char) (events : List Event) (s : State) : Except DecodeError State :=
  events.foldlM (fun s event => step document s ⟨event, 0⟩) s

theorem run_append (document : List Char) (events events' : List Event) (s : State) :
    run document (events ++ events') s =
      run document events s >>= run document events' :=
  List.foldlM_append

theorem run_cons_ok {document : List Char} {event : Event} {s s' : State}
    (h : step document s ⟨event, 0⟩ = .ok s') (events : List Event) :
    run document (event :: events) s = run document events s' := by
  unfold run
  rw [List.foldlM_cons, h]
  rfl

theorem step_stop {document : List Char} {s s' : State} {event : Event} {i : Nat}
    (h : step document s ⟨event, i⟩ = .ok s') (j : Nat) : step document s ⟨event, j⟩ = .ok s' := by
  cases event with
  | start _ | text _ | verbatim _ | aside => exact h
  | empty tag =>
    change opensAndCloses document ⟨_, i⟩ s tag = _ at h
    change opensAndCloses document ⟨_, j⟩ s tag = _
    unfold opensAndCloses at *
    split
    · rename_i hspreadsheet
      rwa [if_pos hspreadsheet] at h
    rename_i hspreadsheet
    rw [if_neg hspreadsheet] at h
    split
    · rename_i hcell
      rw [if_pos hcell] at h
      cases h
    · rename_i hcell
      rwa [if_neg hcell] at h
  | close name =>
    change closes document ⟨_, i⟩ s name = _ at h
    change closes document ⟨_, j⟩ s name = _
    unfold closes at *
    split
    · rename_i hcell
      rw [if_pos hcell] at h
      cases hname : s.name with
      | none =>
        rw [hname] at h
        cases h
      | some _ =>
        cases hcontents : s.contents with
        | none =>
          rw [hname, hcontents] at h
          cases h
        | some _ =>
          rw [hname, hcontents] at h
          exact h
    · rename_i hcell
      rwa [if_neg hcell] at h

theorem foldlM_iff_run {document : List Char} {items : List Item} {s s' : State} :
    items.foldlM (step document) s = .ok s' ↔
      run document (items.map Item.event) s = .ok s' := by
  induction items generalizing s with
  | nil => exact Iff.rfl
  | cons item items ih =>
    unfold run
    rw [List.map_cons, List.foldlM_cons, List.foldlM_cons]
    cases hstep : step document s ⟨item.event, 0⟩ with
    | error e =>
      cases hitem : step document s item with
      | error _ => exact ⟨nofun, nofun⟩
      | ok t => cases hstep.symm.trans (step_stop hitem 0)
    | ok t =>
      rw [step_stop hstep item.stop]
      exact ih

theorem foldlM_of_run {document : List Char} {items : List Item} {s s' : State}
    (h : run document (items.map Item.event) s = .ok s') :
    items.foldlM (step document) s = .ok s' :=
  foldlM_iff_run.2 h

end running

section encoding

def cellTag : List Char := "cell".toList

def nameTag : List Char := "name".toList

def contentsTag : List Char := "contents".toList

def elementNames : List (List Char) := [spreadsheet, cellTag, nameTag, contentsTag]

theorem isTagName_of_mem {name : List Char} (h : name ∈ elementNames) : IsTagName name := by
  have hnames : ∀ name ∈ elementNames, name ≠ [] ∧ name.all Char.isLower = true := by decide
  obtain ⟨hne, hlower⟩ := hnames name h
  exact ⟨hne, List.all_eq_true.1 hlower⟩

def indent (n : Nat) : List Char := '\n' :: List.replicate n ' '

/-- What follows the tag before the first of these records. -/
def recordsText : List Record → List Char
  | [] => indent 0 ++ '<' :: '/' :: (spreadsheet ++ '>' :: indent 0)
  | r :: records =>
    indent 2 ++ '<' :: (cellTag ++ '>' ::
      (indent 4 ++ '<' :: (nameTag ++ '>' ::
        (escape r.name.toList ++ '<' :: '/' :: (nameTag ++ '>' ::
      (indent 4 ++ '<' :: (contentsTag ++ '>' ::
        (escape r.contents.toList ++ '<' :: '/' :: (contentsTag ++ '>' ::
    (indent 2 ++ '<' :: '/' :: (cellTag ++ '>' :: recordsText records)))))))))))

def recordEvents (r : Record) (events : List Event) : List Event :=
  textEvents (indent 2) ++ .start ⟨cellTag, []⟩ ::
    (textEvents (indent 4) ++ .start ⟨nameTag, []⟩ ::
      (textEvents (escape r.name.toList) ++ .close nameTag ::
    (textEvents (indent 4) ++ .start ⟨contentsTag, []⟩ ::
      (textEvents (escape r.contents.toList) ++ .close contentsTag ::
  (textEvents (indent 2) ++ .close cellTag :: events)))))

def recordsEvents : List Record → List Event
  | [] => textEvents (indent 0) ++ .close spreadsheet :: textEvents (indent 0)
  | r :: records => recordEvents r (recordsEvents records)

theorem recordsText_eq (records : List Record) :
    '\n' :: (records.flatMap encodeRecord ++ "</spreadsheet>\n".toList) = recordsText records := by
  induction records with
  | nil => decide
  | cons r records ih =>
    have hopen : "  <cell>\n    <name>".toList =
        ' ' :: ' ' :: '<' :: (cellTag ++ '>' :: (indent 4 ++ '<' :: (nameTag ++ ['>']))) := by decide
    have hmiddle : "</name>\n    <contents>".toList =
        '<' :: '/' :: (nameTag ++ '>' :: (indent 4 ++ '<' :: (contentsTag ++ ['>']))) := by decide
    have hclose : "</contents>\n  </cell>\n".toList =
        '<' :: '/' :: (contentsTag ++ '>' :: (indent 2 ++ '<' :: '/' :: (cellTag ++ ['>', '\n']))) := by
      decide
    have hindent : indent 2 = ['\n', ' ', ' '] := by decide
    unfold recordsText
    rw [List.flatMap_cons, List.append_assoc, ← ih]
    generalize records.flatMap encodeRecord ++ "</spreadsheet>\n".toList = tail
    unfold encodeRecord
    rw [hopen, hmiddle, hclose, hindent]
    simp only [List.append_assoc, List.cons_append, List.nil_append]

theorem not_mem_indent_of_ne {c : Char} (h : c ≠ '\n') (h' : c ≠ ' ') (n : Nat) : c ∉ indent n := by
  unfold indent
  rw [List.mem_cons, List.mem_replicate]
  rintro (rfl | ⟨-, rfl⟩)
  · exact h rfl
  · exact h' rfl

theorem not_mem_indent (n : Nat) : '<' ∉ indent n :=
  not_mem_indent_of_ne (by decide) (by decide) n

theorem reads_records (records : List Record) :
    Reads [spreadsheet] (recordsText records) (recordsEvents records) := by
  have hcell : IsTagName cellTag := isTagName_of_mem (by decide)
  have hname : IsTagName nameTag := isTagName_of_mem (by decide)
  have hcontents : IsTagName contentsTag := isTagName_of_mem (by decide)
  have hspreadsheet : IsTagName spreadsheet := isTagName_of_mem (by decide)
  have hescape (cs : List Char) : '<' ∉ escape cs := not_mem_escape (by decide) cs
  induction records with
  | nil => exact reads_close hspreadsheet (not_mem_indent 0) (reads_end (not_mem_indent 0) [])
  | cons r records ih =>
    have hend := reads_close hcell (not_mem_indent 2) ih
    have hcontentsEnd := reads_close hcontents (hescape r.contents.toList) hend
    have hcontentsStart := reads_open hcontents (not_mem_indent 4) hcontentsEnd
    have hnameEnd := reads_close hname (hescape r.name.toList) hcontentsStart
    have hnameStart := reads_open hname (not_mem_indent 4) hnameEnd
    exact reads_open hcell (not_mem_indent 2) hnameStart

end encoding

section decoding

theorem run_piece {document text : List Char} {event : Event} {s t u : State}
    (htext : run document (textEvents text) s = .ok t) (hevent : step document t ⟨event, 0⟩ = .ok u)
    (events : List Event) : run document (textEvents text ++ event :: events) s =
      run document events u := by
  rw [run_append, htext]
  exact run_cons_ok hevent events

theorem run_outside (document text : List Char) {s : State} (h : s.field = none) :
    run document (textEvents text) s = .ok s := by
  unfold textEvents
  split
  · rfl
  · have hstep : step document s ⟨.text text, 0⟩ = .ok s := by
      unfold step
      rw [h]
      rfl
    rw [run_cons_ok hstep]
    rfl

theorem run_text (document : List Char) {text : List Char} {s : State} {field : Field}
    (h : s.field = some field) : run document (textEvents text) s =
      match unescape text with
      | .error fault => .error (.markup (.reference fault))
      | .ok cs => .ok { s with text := s.text ++ cs } := by
  unfold textEvents
  split
  · rename_i hnil
    have hempty : unescape text = .ok [] := by
      rw [hnil]
      exact unescape_escape []
    rw [hempty]
    dsimp only
    rw [List.append_nil]
    rfl
  · have hstep : step document s ⟨.text text, 0⟩ =
        match unescape text with
        | .error fault => .error (.markup (.reference fault))
        | .ok cs => .ok { s with text := s.text ++ cs } := by
      unfold step
      rw [h]
      rfl
    unfold run
    rw [List.foldlM_cons, hstep]
    cases unescape text with
    | error _ => rfl
    | ok _ => rfl

theorem run_inside (document cs : List Char) {s : State} {field : Field} (h : s.field = some field) :
    run document (textEvents (escape cs)) s = .ok { s with text := s.text ++ cs } := by
  rw [run_text document h, unescape_escape]

/-- The state outside a cell, after some records. -/
def between (version : String) (records : List Record) : State :=
  ⟨some version, records, false, none, [], none, none⟩

def trimName (r : Record) : Record := { r with name := Text.trim r.name }

theorem trimName_eq_self_iff {r : Record} : trimName r = r ↔ Text.trim r.name = r.name := by
  refine ⟨congrArg Record.name, fun h => ?_⟩
  unfold trimName
  rw [h]

theorem run_record (document : List Char) (version : String) (before : List Record) (r : Record)
    (events : List Event) : run document (recordEvents r events) (between version before) =
      run document events (between version (trimName r :: before)) := by
  have hcell : step document (between version before) ⟨.start ⟨cellTag, []⟩, 0⟩ =
      .ok ⟨some version, before, true, none, [], none, none⟩ := rfl
  have hname : step document ⟨some version, before, true, none, [], none, none⟩
      ⟨.start ⟨nameTag, []⟩, 0⟩ =
      .ok ⟨some version, before, true, some .name, [], none, none⟩ := rfl
  have hnameEnd (name : List Char) :
      step document ⟨some version, before, true, some .name, name, none, none⟩ ⟨.close nameTag, 0⟩ =
      .ok ⟨some version, before, true, none, [], some name, none⟩ := rfl
  have hcontents (name : List Char) :
      step document ⟨some version, before, true, none, [], some name, none⟩
        ⟨.start ⟨contentsTag, []⟩, 0⟩ =
      .ok ⟨some version, before, true, some .contents, [], some name, none⟩ := rfl
  have hcontentsEnd (name contents : List Char) :
      step document ⟨some version, before, true, some .contents, contents, some name, none⟩
        ⟨.close contentsTag, 0⟩ =
      .ok ⟨some version, before, true, none, [], some name, some contents⟩ := rfl
  have hend (name contents : List Char) :
      step document ⟨some version, before, true, none, [], some name, some contents⟩
        ⟨.close cellTag, 0⟩ =
      .ok (between version
        (⟨String.ofList (Text.trimList name), String.ofList contents⟩ :: before)) := rfl
  unfold recordEvents
  rw [run_piece (run_outside _ _ rfl) hcell, run_piece (run_outside _ _ rfl) hname,
    run_piece (run_inside _ _ rfl) (hnameEnd _), run_piece (run_outside _ _ rfl) (hcontents _),
    run_piece (run_inside _ _ rfl) (hcontentsEnd _ _), run_piece (run_outside _ _ rfl) (hend _ _),
    List.nil_append, List.nil_append, String.ofList_toList]
  rfl

theorem run_records (document : List Char) (version : String) (before records : List Record) :
    run document (recordsEvents records) (between version before) =
      .ok (between version ((records.map trimName).reverse ++ before)) := by
  induction records generalizing before with
  | nil =>
    change run document (textEvents (indent 0) ++ .close spreadsheet :: textEvents (indent 0)) _ = _
    rw [run_piece (run_outside _ _ rfl) rfl, run_outside _ _ rfl]
    rfl
  | cons r records ih =>
    change run document (recordEvents r (recordsEvents records)) _ = _
    rw [run_record, ih, List.map_cons, List.reverse_cons, List.append_assoc, List.singleton_append]

end decoding

section document

def attributes (version : String) : List Char :=
  " version=".toList ++ '"' :: (escape version.toList ++ ['"'])

def declaration : List Char := "xml version=\"1.0\" encoding=\"utf-8\"?".toList

theorem toList_encode (s : Snapshot) : (encode s).toList =
    '<' :: '?' :: (declaration ++ '>' :: (indent 0 ++ '<' ::
      (spreadsheet ++ attributes s.version ++ '>' :: recordsText s.records))) := by
  have hfront : "<?xml version=\"1.0\" encoding=\"utf-8\"?>\n<spreadsheet version=\"".toList =
      '<' :: '?' :: (declaration ++ '>' :: (indent 0 ++ '<' :: (spreadsheet ++
        (" version=".toList ++ ['"'])))) := by decide
  have hback : "\">\n".toList = ['"', '>', '\n'] := by decide
  unfold encode attributes
  rw [String.toList_ofList, ← recordsText_eq, hfront, hback]
  simp only [List.append_assoc, List.cons_append, List.nil_append]

theorem piece_declaration (opened : List (List Char)) (rest : List Char) :
    piece opened ('?' :: (declaration ++ '>' :: rest)) = .ok ⟨.aside, declaration.length + 2⟩ := by
  have hcontent : (declaration ++ '>' :: rest).takeWhile (· ≠ '>') = declaration :=
    Text.takeWhile_ne (by decide) rest
  change instruction (declaration ++ '>' :: rest) = _
  unfold instruction
  dsimp only
  rw [hcontent, if_pos (by decide)]

theorem tagLength?_spreadsheet (version : String) (rest : List Char) :
    tagLength? none (spreadsheet ++ attributes version ++ '>' :: rest) =
      some (spreadsheet ++ attributes version).length := by
  have hquote : '"' ∉ escape version.toList := not_mem_escape (by decide) _
  have hplain : ∀ c ∈ spreadsheet ++ " version=".toList, c ≠ '>' ∧ c ≠ '"' ∧ c ≠ '\'' :=
    Text.forall_mem_of_all (by decide)
  have hsplit (rest : List Char) : spreadsheet ++ attributes version ++ rest =
      (spreadsheet ++ " version=".toList) ++
        '"' :: (escape version.toList ++ '"' :: rest) := by
    unfold attributes
    simp only [List.append_assoc, List.cons_append, List.nil_append]
  have hopen (cs : List Char) :
      tagLength? none ('"' :: cs) = (tagLength? (some '"') cs).map (· + 1) := rfl
  have hstop : tagLength? none ('>' :: rest) = some 0 := rfl
  have hsize := congrArg List.length (hsplit [])
  rw [hsplit, tagLength?_append hplain, hopen, tagLength?_quoted hquote, hstop]
  simp only [Option.map_some, List.append_nil, List.length_append, List.length_cons,
    List.length_nil] at hsize ⊢
  congr 1
  omega

theorem spreadsheet_exists_cons (version : String) :
    ∃ c cs, spreadsheet ++ attributes version = c :: cs ∧ c.isLower = true :=
  ⟨'s', _, rfl, by decide⟩

theorem piece_spreadsheet (version : String) (opened : List (List Char)) (rest : List Char) :
    piece opened (spreadsheet ++ attributes version ++ '>' :: rest) =
      .ok ⟨.start ⟨spreadsheet, attributes version⟩,
        (spreadsheet ++ attributes version).length + 1⟩ := by
  have hlast : (spreadsheet ++ attributes version).getLast? ≠ some '/' := by
    have hquoted : spreadsheet ++ attributes version =
        spreadsheet ++ (" version=".toList ++ '"' :: escape version.toList) ++ ['"'] := by
      unfold attributes
      simp only [List.append_assoc, List.cons_append]
    rw [hquoted, List.getLast?_concat]
    decide
  have hgap : ∀ c, (attributes version).head? = some c → (!isGap c) = false := by
    intro c hc
    obtain rfl : ' ' = c := Option.some.inj hc
    rfl
  have hname : ∀ c ∈ spreadsheet, (!isGap c) = true := Text.forall_mem_of_all (by decide)
  have hpiece := piece_tag (spreadsheet_exists_cons version) (tagLength?_spreadsheet version rest)
    hlast opened
  rw [Text.takeWhile_run hname hgap, Text.dropWhile_run hname hgap] at hpiece
  exact hpiece

theorem attributeValue_escape (size offset : Nat) (cs : List Char) :
    attributeValue size offset ('"' :: (escape cs ++ ['"'])) =
      .ok (escape cs, (escape cs).length + 2) := by
  have hquote : '"' ∉ escape cs := not_mem_escape (by decide) cs
  have htake := Text.takeWhile_ne hquote []
  have hgap : ('"' :: (escape cs ++ ['"'])).takeWhile isGap = [] := rfl
  have hrest : ('"' :: (escape cs ++ ['"'])).dropWhile isGap = '"' :: (escape cs ++ ['"']) := rfl
  have hclosed : (escape cs ++ ['"']).contains '"' = true := by simp
  unfold attributeValue
  rw [hgap, hrest]
  dsimp only
  rw [if_pos (.inl rfl), if_pos hclosed, htake, List.length_nil, Nat.zero_add]

theorem nextAttribute_version (version : String) (size offset : Nat) :
    nextAttribute size [] offset (attributes version) = .ok (some ⟨"version".toList,
      escape version.toList, offset + 1, 9 + ((escape version.toList).length + 2)⟩) := by
  have hvalue := attributeValue_escape size (offset + 9) version.toList
  unfold attributes
  generalize '"' :: (escape version.toList ++ ['"']) = quoted at hvalue ⊢
  generalize escape version.toList = value at hvalue ⊢
  have hgap : (" version=".toList ++ quoted).takeWhile isGap = [' '] := rfl
  have hdrop : (" version=".toList ++ quoted).dropWhile isGap =
      'v' :: ("ersion=".toList ++ quoted) := rfl
  have hkey : ("ersion=".toList ++ quoted).takeWhile (fun c => !(c == '=' || isGap c)) =
      "ersion".toList := rfl
  have hafter : ("ersion=".toList ++ quoted).dropWhile (fun c => !(c == '=' || isGap c)) =
      '=' :: quoted := rfl
  have hspace : ('=' :: quoted).takeWhile isGap = [] := rfl
  have hequal : ('=' :: quoted).dropWhile isGap = '=' :: quoted := rfl
  have hoffset : offset + Text.bytes [' '] + Text.bytes ('v' :: "ersion".toList) + Text.bytes [] + 1 =
      offset + 9 := rfl
  unfold nextAttribute
  simp only [hgap, hdrop, hkey, hafter, hspace, hequal, List.find?_nil, hoffset, hvalue]
  rfl

theorem attribute_version (version : String) :
    (⟨spreadsheet, attributes version⟩ : Tag).attribute "version" =
      .ok (some (escape version.toList)) := by
  unfold Tag.attribute findAttribute
  rw [nextAttribute_version]
  dsimp only
  generalize "version".toList = key
  exact if_pos rfl

theorem versionOf_attributes (version : String) :
    versionOf ⟨spreadsheet, attributes version⟩ = .ok (some version) := by
  unfold versionOf
  rw [attribute_version]
  dsimp only
  rw [unescape_escape]
  dsimp only
  rw [String.ofList_toList]

def documentEvents (s : Snapshot) : List Event :=
  .aside :: (textEvents (indent 0) ++ .start ⟨spreadsheet, attributes s.version⟩ ::
    recordsEvents s.records)

theorem reads_spreadsheet (version : String) {text rest : List Char} {opened : List (List Char)}
    {events : List Event} (h : '<' ∉ text) (hrest : Reads (spreadsheet :: opened) rest events) :
    Reads opened (text ++ '<' :: (spreadsheet ++ attributes version ++ '>' :: rest))
      (textEvents text ++ .start ⟨spreadsheet, attributes version⟩ :: events) := by
  have hpiece := piece_spreadsheet version opened rest
  have hread := reads_piece (spreadsheet ++ attributes version ++ ['>'])
    (.start ⟨spreadsheet, attributes version⟩) h (by simp)
    (by simpa [Nat.add_assoc] using hpiece) hrest
  simpa using hread

theorem reads_encode (s : Snapshot) : Reads [] (encode s).toList (documentEvents s) := by
  have htag := reads_spreadsheet s.version (not_mem_indent 0) (reads_records s.records)
  have hread : Reads [] ([] ++ '<' :: ('?' :: (declaration ++ ['>']) ++ _))
      (textEvents [] ++ .aside :: _) :=
    reads_piece ('?' :: (declaration ++ ['>'])) .aside (by decide) (by simp)
      (by simpa using piece_declaration [] _) htag
  rw [toList_encode]
  simpa [documentEvents, textEvents] using hread

theorem read_encode (s : Snapshot) :
    (Markup.read (encode s).toList).items.map Item.event = documentEvents s ∧
      (Markup.read (encode s).toList).fault = none := by
  have hread : Markup.read (encode s).toList = readFrom 0 [] (encode s).toList := by
    rw [toList_encode]
    rfl
  rw [hread]
  exact reads_encode s 0

theorem step_spreadsheet (document : List Char) (s : State) (version : String) :
    step document s ⟨.start ⟨spreadsheet, attributes version⟩, 0⟩ =
      .ok { s with version := some version } := by
  change (versionOf ⟨spreadsheet, attributes version⟩).map (fun version => { s with version }) = _
  rw [versionOf_attributes]
  rfl

theorem run_document (document : List Char) (s : Snapshot) :
    run document (documentEvents s) .initial =
      .ok (between s.version (s.records.map trimName).reverse) := by
  have hstart : step document .initial ⟨.start ⟨spreadsheet, attributes s.version⟩, 0⟩ =
      .ok (between s.version []) := step_spreadsheet document _ _
  have haside : step document .initial ⟨.aside, 0⟩ = .ok .initial := rfl
  unfold documentEvents
  rw [run_cons_ok haside, run_piece (run_outside _ _ rfl) hstart, run_records, List.append_nil]

end document

theorem decode_of_events {text : String} {s : State}
    (hfault : (Markup.read text.toList).fault = none)
    (hrun : run text.toList ((Markup.read text.toList).items.map Item.event) .initial = .ok s) :
    decode text = finish s := by
  unfold decode
  dsimp only
  rw [foldlM_of_run hrun, hfault]

/-- A snapshot is read back from the XML format, only with the blanks around names dropped. -/
theorem decode_encode (s : Snapshot) :
    decode (encode s) = .ok { s with records := s.records.map trimName } := by
  obtain ⟨hevents, hfault⟩ := read_encode s
  have hrun := run_document (encode s).toList s
  rw [← hevents] at hrun
  rw [decode_of_events hfault hrun]
  change Except.ok (⟨s.version, (s.records.map trimName).reverse.reverse⟩ : Snapshot) = _
  rw [List.reverse_reverse]

theorem firstSpreadsheet?_documentEvents {items : List Item} {s : Snapshot}
    (h : items.map Item.event = documentEvents s) :
    firstSpreadsheet? items = some ⟨spreadsheet, attributes s.version⟩ := by
  obtain ⟨aside, items, rfl, haside, h⟩ := List.map_eq_cons_iff.1 h
  obtain ⟨text, items, rfl, htext, h⟩ := List.map_eq_cons_iff.1 h
  obtain ⟨start, items, rfl, hstart, -⟩ := List.map_eq_cons_iff.1 h
  unfold firstSpreadsheet?
  rw [haside]
  dsimp only
  unfold firstSpreadsheet?
  rw [htext]
  dsimp only
  unfold firstSpreadsheet?
  rw [hstart]
  dsimp only
  rw [if_pos rfl]

theorem decodeVersion_encode (s : Snapshot) : decodeVersion (encode s) = .ok s.version := by
  obtain ⟨hevents, -⟩ := read_encode s
  unfold decodeVersion
  dsimp only
  rw [firstSpreadsheet?_documentEvents hevents]
  dsimp only
  rw [versionOf_attributes]

end Worksheet.Xml
