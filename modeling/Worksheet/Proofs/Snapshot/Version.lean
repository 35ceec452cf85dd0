import Worksheet.Proofs.Sheet.Saved
import Worksheet.Proofs.Snapshot.Xml

set_option autoImplicit false

/-!
# The version in the XML format

Reading a whole document takes the version from the last tag of a spreadsheet in it, and reading only the
version from the first one. So the two give the same exactly where these two tags have the same version.
-/
namespace Worksheet.Xml
open Worksheet.Markup
open FileTree (disk)

def spreadsheetTag? (event : Event) : Option Tag :=
  match event with
  | .start tag | .empty tag => if tag.name = spreadsheet then some tag else none
  | _ => none

def spreadsheets (events : List Event) : List Tag := events.filterMap spreadsheetTag?

def eventsOf (text : String) : List Event := (Markup.read text.toList).items.map Item.event

/-- The first and the last tag of a spreadsheet have the same version. -/
def OneVersion (text : String) : Prop :=
  (spreadsheets (eventsOf text)).head?.map versionOf =
    (spreadsheets (eventsOf text)).getLast?.map versionOf

theorem firstSpreadsheet?_eq (items : List Item) :
    firstSpreadsheet? items = (spreadsheets (items.map Item.event)).head? := by
  induction items with
  | nil => rfl
  | cons item items ih =>
    unfold firstSpreadsheet? spreadsheets
    rw [List.map_cons, List.filterMap_cons]
    cases hevent : item.event with
    | start tag =>
      dsimp only [spreadsheetTag?]
      split
      · rfl
      · exact ih
    | empty tag =>
      dsimp only [spreadsheetTag?]
      split
      · rfl
      · exact ih
    | close _ => exact ih
    | text _ => exact ih
    | verbatim _ => exact ih
    | aside => exact ih

section reading

variable {document : List Char} {s t : State}

/-- The version after an event: that of a spreadsheet's tag, and for other events the one before. -/
def versionAfter (s : State) (event : Event) : Except DecodeError (Option String) :=
  match spreadsheetTag? event with
  | some tag => versionOf tag
  | none => .ok s.version

theorem version_of_map {tag : Tag}
    (h : (versionOf tag).map (fun version => { s with version }) = .ok t) :
    versionOf tag = .ok t.version := by
  cases hversion : versionOf tag with
  | error e =>
    rw [hversion] at h
    cases h
  | ok version =>
    rw [hversion] at h
    obtain rfl := Except.ok.inj h
    rfl

@[simp] theorem version_setField (s : State) (field : Field) (text : List Char) :
    (s.setField field text).version = s.version := by
  cases field with
  | name => rfl
  | contents => rfl

theorem version_ite (c : Prop) [Decidable c] (h : t.version = s.version) :
    (if c then t else s).version = s.version := by
  split
  · exact h
  · rfl

theorem version_opens {tag : Tag} (h : opens s tag = .ok t) :
    versionAfter s (.start tag) = .ok t.version := by
  unfold opens at h
  dsimp only [versionAfter, spreadsheetTag?]
  split at h
  · rename_i hname
    rw [if_pos hname]
    exact version_of_map h
  · rename_i hname
    rw [if_neg hname]
    split at h
    · obtain rfl := Except.ok.inj h
      rfl
    split at h
    · obtain rfl := Except.ok.inj h
      exact congrArg Except.ok (version_ite _ (by rfl)).symm
    · obtain rfl := Except.ok.inj h
      rfl

theorem version_opensAndCloses {item : Item} {tag : Tag}
    (h : opensAndCloses document item s tag = .ok t) :
    versionAfter s (.empty tag) = .ok t.version := by
  unfold opensAndCloses at h
  dsimp only [versionAfter, spreadsheetTag?]
  split at h
  · rename_i hname
    rw [if_pos hname]
    exact version_of_map h
  · rename_i hname
    rw [if_neg hname]
    split at h
    · cases h
    split at h
    · obtain rfl := Except.ok.inj h
      exact congrArg Except.ok (version_ite _ (version_setField _ _ _)).symm
    · obtain rfl := Except.ok.inj h
      rfl

theorem version_closes {item : Item} {name : List Char} (h : closes document item s name = .ok t) :
    t.version = s.version := by
  unfold closes at h
  split at h
  · split at h
    · obtain rfl := Except.ok.inj h
      rfl
    · cases h
  split at h
  · split at h
    · obtain rfl := Except.ok.inj h
      exact version_setField _ _ _
    · obtain rfl := Except.ok.inj h
      rfl
  · obtain rfl := Except.ok.inj h
    rfl

theorem version_step {item : Item} (h : step document s item = .ok t) :
    versionAfter s item.event = .ok t.version := by
  unfold step at h
  cases hevent : item.event with
  | start tag =>
    rw [hevent] at h
    exact version_opens h
  | empty tag =>
    rw [hevent] at h
    exact version_opensAndCloses h
  | close name =>
    rw [hevent] at h
    exact congrArg Except.ok (version_closes h).symm
  | text raw =>
    rw [hevent] at h
    dsimp only at h
    split at h
    · split at h
      · cases h
      · obtain rfl := Except.ok.inj h
        rfl
    · obtain rfl := Except.ok.inj h
      rfl
  | verbatim text =>
    rw [hevent] at h
    obtain rfl := Except.ok.inj h
    exact congrArg Except.ok (version_ite _ (by rfl)).symm
  | aside =>
    rw [hevent] at h
    obtain rfl := Except.ok.inj h
    rfl

/-- After a run, the version is that of the last tag of a spreadsheet. -/
theorem version_foldlM {items : List Item} (h : items.foldlM (step document) s = .ok t) :
    (match (spreadsheets (items.map Item.event)).getLast? with
      | some tag => versionOf tag
      | none => .ok s.version) = .ok t.version := by
  induction items generalizing s with
  | nil =>
    obtain rfl := Except.ok.inj h
    rfl
  | cons item items ih =>
    rw [List.foldlM_cons] at h
    cases hstep : step document s item with
    | error e =>
      rw [hstep] at h
      cases h
    | ok u =>
      rw [hstep] at h
      have hversion := version_step hstep
      have hrest := ih h
      unfold versionAfter at hversion
      unfold spreadsheets at hrest ⊢
      rw [List.map_cons, List.filterMap_cons]
      cases htag : spreadsheetTag? item.event with
      | none =>
        rw [htag] at hversion
        rwa [Except.ok.inj hversion]
      | some tag =>
        rw [htag] at hversion
        rw [List.getLast?_cons]
        cases hlast : ((items.map Item.event).filterMap spreadsheetTag?).getLast? with
        | none =>
          rw [hlast] at hrest
          rw [← hrest]
          exact hversion
        | some last =>
          rw [hlast] at hrest
          exact hrest

end reading

theorem version_decode {text : String} {s : Snapshot} (h : decode text = .ok s) :
    ∃ last, (spreadsheets (eventsOf text)).getLast? = some last ∧
      versionOf last = .ok (some s.version) := by
  unfold eventsOf
  unfold decode at h
  dsimp only at h
  split at h
  · cases h
  rename_i t hrun
  split at h
  · cases h
  have hversion := version_foldlM hrun
  unfold finish at h
  cases hfinal : t.version with
  | none =>
    rw [hfinal] at h
    cases h
  | some version =>
    rw [hfinal] at h hversion
    obtain rfl := Except.ok.inj h
    cases hlast : (spreadsheets ((Markup.read text.toList).items.map Item.event)).getLast? with
    | none =>
      rw [hlast] at hversion
      cases hversion
    | some last =>
      rw [hlast] at hversion
      exact ⟨last, rfl, hversion⟩

theorem decodeVersion_eq_ok_iff {text : String} {first : Tag} {version : String}
    (h : (spreadsheets (eventsOf text)).head? = some first) :
    decodeVersion text = .ok version ↔ versionOf first = .ok (some version) := by
  unfold eventsOf at h
  unfold decodeVersion
  dsimp only
  rw [firstSpreadsheet?_eq, h]
  dsimp only
  cases versionOf first with
  | error e => exact ⟨nofun, nofun⟩
  | ok found =>
    cases found with
    | none => exact ⟨nofun, nofun⟩
    | some found =>
      exact ⟨fun he => congrArg (Except.ok ∘ some) (Except.ok.inj he),
        fun he => congrArg Except.ok (Option.some.inj (Except.ok.inj he))⟩

theorem version_of_ofText {rules : Rules} {text : String} {sheet : Sheet} {s : Snapshot}
    (hs : decode text = .ok s) (h : Sheet.ofText .xml rules text = .ok sheet) :
    s.version = rules.version := by
  have hdecode : FileFormat.xml.decode text = .ok s := hs
  unfold Sheet.ofText at h
  rw [hdecode] at h
  dsimp only [Sheet.ofSnapshot] at h
  split at h
  · assumption
  · cases h

section nesting

def nested (outer inner : String) : String :=
  String.ofList ('<' :: (spreadsheet ++ attributes outer ++ '>' ::
    ('<' :: (spreadsheet ++ attributes inner ++ '>' ::
      ('<' :: '/' :: (spreadsheet ++ '>' :: ('<' :: '/' :: (spreadsheet ++ ['>']))))))))

theorem read_nested (outer inner : String) :
    eventsOf (nested outer inner) = [.start ⟨spreadsheet, attributes outer⟩,
        .start ⟨spreadsheet, attributes inner⟩, .close spreadsheet, .close spreadsheet] ∧
      (Markup.read (nested outer inner).toList).fault = none := by
  have hname : IsTagName spreadsheet := isTagName_of_mem (by decide)
  have hnil : '<' ∉ ([] : List Char) := List.not_mem_nil
  have hinner := reads_spreadsheet inner hnil
    (reads_close hname hnil (reads_close hname hnil (reads_end hnil [])))
  have houter := reads_spreadsheet outer hnil hinner 0
  have hread : Markup.read (nested outer inner).toList = readFrom 0 [] (nested outer inner).toList := by
    unfold nested
    rw [String.toList_ofList]
    rfl
  unfold eventsOf
  rw [hread]
  unfold nested
  rw [String.toList_ofList]
  exact houter

theorem decode_nested (outer inner : String) : decode (nested outer inner) = .ok ⟨inner, []⟩ := by
  obtain ⟨hevents, hfault⟩ := read_nested outer inner
  refine decode_of_events (s := { State.initial with version := some inner }) hfault ?_
  change run _ (eventsOf (nested outer inner)) .initial = _
  rw [hevents, run_cons_ok (step_spreadsheet _ _ _), run_cons_ok (step_spreadsheet _ _ _)]
  rfl

theorem decodeVersion_nested (outer inner : String) :
    decodeVersion (nested outer inner) = .ok outer := by
  have hfirst : (spreadsheets (eventsOf (nested outer inner))).head? =
      some ⟨spreadsheet, attributes outer⟩ := by
    rw [(read_nested outer inner).1]
    rfl
  exact (decodeVersion_eq_ok_iff hfirst).2 (versionOf_attributes _)

end nesting

/-- The version that is read by itself is the one of the whole document exactly if the first and the last
tag of a spreadsheet have the same, and so it is for a file that opens. -/
theorem decodeVersion_iff_oneVersion {text : String} {s : Snapshot} (h : decode text = .ok s) :
    (decodeVersion text = .ok s.version ↔ OneVersion text) ∧
      ∀ (t : FileTree) (path : String) (rules : Rules) (sheet : Sheet),
        FileFormat.ofPath path = .xml → FileTree.textAt (t.find path) = .ok text →
        ((Sheet.load disk path rules).run t).1 = .ok sheet →
        (((Sheet.savedVersion disk path).run t).1 = .ok rules.version ↔ OneVersion text) := by
  obtain ⟨last, hlast, hversion⟩ := version_decode h
  have alone : decodeVersion text = .ok s.version ↔ OneVersion text := by
    unfold OneVersion
    cases hfirst : (spreadsheets (eventsOf text)).head? with
    | none =>
      rw [List.head?_eq_none_iff.1 hfirst] at hlast
      cases hlast
    | some first =>
      rw [decodeVersion_eq_ok_iff hfirst, hlast, Option.map_some, Option.map_some, hversion,
        Option.some_inj]
  refine ⟨alone, fun t path rules sheet hpath htext hload => ?_⟩
  rw [Sheet.load_disk rules htext, hpath] at hload
  rw [Sheet.savedVersion_disk htext, hpath, ← version_of_ofText h hload, ← alone]
  change (decodeVersion text).mapError LoadError.decode = _ ↔ _
  cases decodeVersion text with
  | error e => exact ⟨nofun, nofun⟩
  | ok version =>
    exact ⟨fun he => congrArg _ (Except.ok.inj he), fun he => congrArg _ (Except.ok.inj he)⟩

/-- The file opens with the version of the inner element and is said to have that of the outer one. -/
theorem decodeVersion_iff_oneVersion_nested :
    decode (nested "1" "default") = .ok ⟨"default", []⟩ ∧
      FileFormat.ofPath "sheet.xml" = .xml ∧
      ∃ t sheet, FileTree.textAt (t.find "sheet.xml") = .ok (nested "1" "default") ∧
        ((Sheet.load disk "sheet.xml" .standard).run t).1 = .ok sheet ∧
        ((Sheet.savedVersion disk "sheet.xml").run t).1 = .ok "1" ∧
        ¬OneVersion (nested "1" "default") := by
  have hdecode := decode_nested "1" "default"
  have hpath : FileFormat.ofPath "sheet.xml" = .xml := by decide
  generalize hbytes : (nested "1" "default").toUTF8 = bytes
  let t := FileTree.empty.insert ["sheet.xml".toList] (.file bytes)
  have hfind : t.find "sheet.xml" = .ok (.file bytes) := rfl
  have htext : FileTree.textAt (t.find "sheet.xml") = .ok (nested "1" "default") := by
    rw [hfind, ← hbytes]
    dsimp only [FileTree.textAt]
    rw [FileTree.fromUTF8?_toUTF8]
  have hload : ((Sheet.load disk "sheet.xml" .standard).run t).1 =
      .ok { Sheet.new .standard with changed := false } := by
    have hread : FileFormat.xml.decode (nested "1" "default") = .ok ⟨"default", []⟩ := hdecode
    rw [Sheet.load_disk .standard htext, hpath]
    dsimp only [Sheet.ofText]
    rw [hread]
    rfl
  have hsaved : ((Sheet.savedVersion disk "sheet.xml").run t).1 = .ok "1" := by
    rw [Sheet.savedVersion_disk htext, hpath]
    change (decodeVersion (nested "1" "default")).mapError _ = _
    rw [decodeVersion_nested]
    rfl
  refine ⟨hdecode, hpath, t, _, htext, hload, hsaved, fun hone => ?_⟩
  have hsame := ((decodeVersion_iff_oneVersion hdecode).2 t "sheet.xml" .standard _ hpath htext
    hload).2 hone
  rw [hsaved] at hsame
  exact absurd (Except.ok.inj hsame) (by decide)

/-- The version of an element inside the outermost one is taken for that of the document. -/
theorem decodeVersion_ne_nested :
    let text := "<spreadsheet version=\"1\"><spreadsheet version=\"2\"></spreadsheet></spreadsheet>"
    decode text = .ok ⟨"2", []⟩ ∧ decodeVersion text = .ok "1" := by
  have htext : "<spreadsheet version=\"1\"><spreadsheet version=\"2\"></spreadsheet></spreadsheet>" =
      nested "1" "2" := by decide
  intro text
  rw [show text = nested "1" "2" from htext]
  exact ⟨decode_nested "1" "2", decodeVersion_nested "1" "2"⟩

end Worksheet.Xml
