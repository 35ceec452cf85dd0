import Worksheet.Proofs.Markup.Nesting
import Worksheet.Proofs.Snapshot.Version

set_option autoImplicit false

/-!
# The cells of a document in the XML format

Each record comes from a cell element that has no other cell in it, and carries the last name and the last
contents in that element. A cell with another one in it gives no record of its own and no fault.
-/
namespace Worksheet.Xml
open Worksheet.Markup

section cells

def cells : Forest → List Forest
  | .done => []
  | .text _ rest | .verbatim _ rest | .aside rest => cells rest
  | .empty tag rest => if tag.name = cellTag then .done :: cells rest else cells rest
  | .element tag inner rest =>
    if tag.name = cellTag then inner :: (cells inner ++ cells rest) else cells inner ++ cells rest

/-- The cells without a cell in them. -/
def innermost (forest : Forest) : List Forest := (cells forest).filter fun cell => (cells cell).isEmpty

def startsField : Forest → Bool
  | .done => false
  | .text _ rest | .verbatim _ rest | .aside rest | .empty _ rest => startsField rest
  | .element tag inner rest => (field? tag.name).isSome || startsField inner || startsField rest

/-- What stands in the elements of a field, in the order in which they end. Elements in which another
field starts do not count, and a tag without content does. -/
def fields (field : Field) : Forest → List Forest
  | .done => []
  | .text _ rest | .verbatim _ rest | .aside rest => fields field rest
  | .empty tag rest => (if field? tag.name = some field then [.done] else []) ++ fields field rest
  | .element tag inner rest =>
    fields field inner ++
      (if field? tag.name = some field ∧ startsField inner = false then [inner] else []) ++
        fields field rest

/-- The text of the last of some elements, or the one that was there before. -/
def lastText (before : Option (List Char)) (elements : List Forest) : Option (List Char) :=
  match elements.getLast? with
  | none => before
  | some inner => inner.plainText.toOption

/-- The record of a cell that has a name and contents. Blanks around the name do not count. -/
def record? (cell : Forest) : Option Record :=
  match lastText none (fields .name cell), lastText none (fields .contents cell) with
  | some name, some contents => some ⟨String.ofList (Text.trimList name), String.ofList contents⟩
  | _, _ => none

theorem lastText_append (before : Option (List Char)) (elements elements' : List Forest) :
    lastText before (elements ++ elements') = lastText (lastText before elements) elements' := by
  unfold lastText
  rw [List.getLast?_append]
  cases elements'.getLast? with
  | none => rfl
  | some _ => rfl

end cells

section fields

def Field.tag : Field → List Char
  | .name => nameTag
  | .contents => contentsTag

theorem field?_eq_some_iff {name : List Char} {field : Field} :
    field? name = some field ↔ name = field.tag := by
  unfold field?
  split
  · rename_i hname
    subst hname
    cases field with
    | name => exact ⟨fun _ => rfl, fun _ => rfl⟩
    | contents => exact ⟨nofun, nofun⟩
  split
  · rename_i hname
    subst hname
    cases field with
    | name => exact ⟨nofun, nofun⟩
    | contents => exact ⟨fun _ => rfl, fun _ => rfl⟩
  · rename_i hname hcontents
    cases field with
    | name => exact ⟨nofun, fun h => absurd h hname⟩
    | contents => exact ⟨nofun, fun h => absurd h hcontents⟩

def State.value (s : State) : Field → Option (List Char)
  | .name => s.name
  | .contents => s.contents

end fields

section steps

variable {document : List Char} {s t : State} {tag : Tag} {name : List Char} {field : Field}

theorem run_cons_eq_ok {event : Event} {events : List Event}
    (h : run document (event :: events) s = .ok t) :
    ∃ u, step document s ⟨event, 0⟩ = .ok u ∧ run document events u = .ok t := by
  unfold run at h
  rw [List.foldlM_cons] at h
  cases hstep : step document s ⟨event, 0⟩ with
  | error e =>
    rw [hstep] at h
    cases h
  | ok u =>
    rw [hstep] at h
    exact ⟨u, rfl, h⟩

theorem run_append_eq_ok {events events' : List Event}
    (h : run document (events ++ events') s = .ok t) :
    ∃ u, run document events s = .ok u ∧ run document events' u = .ok t := by
  rw [run_append] at h
  cases hrun : run document events s with
  | error e =>
    rw [hrun] at h
    cases h
  | ok u =>
    rw [hrun] at h
    exact ⟨u, rfl, h⟩

theorem Field.tag_ne (field : Field) : field.tag ≠ spreadsheet ∧ field.tag ≠ cellTag := by
  cases field with
  | name => decide
  | contents => decide

theorem step_start_cell (h : tag.name = cellTag) : step document s ⟨.start tag, 0⟩ =
    .ok { s with inCell := true, name := none, contents := none } := by
  have hne : cellTag ≠ spreadsheet := by decide
  change opens s tag = _
  unfold opens
  rw [h, if_neg hne]
  exact if_pos rfl

theorem step_start_field (h : field? tag.name = some field) : step document s ⟨.start tag, 0⟩ =
    .ok (if s.inCell then { s with field := some field, text := [] } else s) := by
  have hname := field?_eq_some_iff.1 h
  have hcell : tag.name ≠ "cell".toList := hname ▸ field.tag_ne.2
  change opens s tag = _
  unfold opens
  rw [if_neg (hname ▸ field.tag_ne.1), if_neg hcell, h]

theorem step_start_other (hcell : tag.name ≠ cellTag) (hfield : field? tag.name = none)
    (h : step document s ⟨.start tag, 0⟩ = .ok t) : t = { s with version := t.version } := by
  have hcell : tag.name ≠ "cell".toList := hcell
  change opens s tag = _ at h
  unfold opens at h
  rw [if_neg hcell, hfield] at h
  split at h
  · cases hversion : versionOf tag with
    | error e =>
      rw [hversion] at h
      cases h
    | ok version =>
      rw [hversion] at h
      obtain rfl := Except.ok.inj h
      rfl
  · obtain rfl := Except.ok.inj h
    rfl

theorem step_empty_cell (h : tag.name = cellTag) : step document s ⟨.empty tag, 0⟩ ≠ .ok t := by
  have hne : cellTag ≠ spreadsheet := by decide
  change opensAndCloses document _ s tag ≠ _
  unfold opensAndCloses
  rw [h, if_neg hne]
  exact fun h => nomatch (if_pos rfl).symm.trans h

theorem step_empty_field (h : field? tag.name = some field) : step document s ⟨.empty tag, 0⟩ =
    .ok (if s.inCell then s.setField field [] else s) := by
  have hname := field?_eq_some_iff.1 h
  have hcell : tag.name ≠ "cell".toList := hname ▸ field.tag_ne.2
  change opensAndCloses document _ s tag = _
  unfold opensAndCloses
  rw [if_neg (hname ▸ field.tag_ne.1), if_neg hcell, h]

theorem step_empty_other (hcell : tag.name ≠ cellTag) (hfield : field? tag.name = none)
    (h : step document s ⟨.empty tag, 0⟩ = .ok t) : t = { s with version := t.version } := by
  have hcell' : tag.name ≠ "cell".toList := hcell
  have hsame : step document s ⟨.start tag, 0⟩ = step document s ⟨.empty tag, 0⟩ := by
    change opens s tag = opensAndCloses document _ s tag
    unfold opens opensAndCloses
    rw [if_neg hcell', if_neg hcell', hfield]
  exact step_start_other hcell hfield (hsame.trans h)

theorem step_close_cell (hin : s.inCell = true) (h : step document s ⟨.close cellTag, 0⟩ = .ok t) :
    ∃ name contents, s.name = some name ∧ s.contents = some contents ∧
      t = { s with
        inCell := false
        name := none
        contents := none
        records := ⟨String.ofList (Text.trimList name), String.ofList contents⟩ :: s.records } := by
  change closes document _ s cellTag = _ at h
  unfold closes at h
  rw [if_pos ⟨rfl, hin⟩] at h
  split at h
  · rename_i name contents hname hcontents
    exact ⟨name, contents, hname, hcontents, (Except.ok.inj h).symm⟩
  · cases h

theorem step_close_outside (hin : s.inCell = false) :
    step document s ⟨.close cellTag, 0⟩ = .ok s := by
  change closes document _ s cellTag = _
  unfold closes
  rw [if_neg (by simp [hin])]
  rfl

theorem step_close_field (h : field? name = some field) : step document s ⟨.close name, 0⟩ =
    .ok (if s.field = some field then
      { s.setField field s.text with field := none, text := [] } else s) := by
  have hcell : name ≠ "cell".toList := field?_eq_some_iff.1 h ▸ field.tag_ne.2
  change closes document _ s name = _
  unfold closes
  rw [if_neg fun hc => hcell hc.1, h]
  dsimp only
  split
  · rfl
  · rfl

theorem step_close_other (hcell : name ≠ cellTag) (hfield : field? name = none) :
    step document s ⟨.close name, 0⟩ = .ok s := by
  change closes document _ s name = _
  unfold closes
  rw [if_neg fun hc => hcell hc.1, hfield]

end steps

section inside

/-- What a forest without cells does to a state in a cell, told by what it consists of. -/
structure Changes (starts : Bool) (plain : Except ReferenceFault (List Char))
    (elements : Field → List Forest) (s t : State) : Prop where
  inCell : t.inCell = s.inCell
  records : t.records = s.records
  field : t.field = if starts then none else s.field
  text : starts = false → s.field.isSome = true → ∃ cs, plain = .ok cs ∧ t.text = s.text ++ cs
  value : ∀ field, t.value field = lastText (s.value field) (elements field)

variable {document : List Char} {s t u : State}

theorem Changes.none (h : t = { s with version := t.version }) :
    Changes false (.ok []) (fun _ => []) s t := by
  rw [h]
  refine ⟨rfl, rfl, rfl, fun _ _ => ⟨[], rfl, (List.append_nil _).symm⟩, fun field => ?_⟩
  cases field with
  | name => rfl
  | contents => rfl

theorem Changes.trans {starts starts' : Bool} {plain plain' plain'' : Except ReferenceFault (List Char)}
    {elements elements' : Field → List Forest} (h : Changes starts plain elements s u)
    (h' : Changes starts' plain' elements' u t)
    (hplain : ∀ cs ds, plain = .ok cs → plain' = .ok ds → plain'' = .ok (cs ++ ds)) :
    Changes (starts || starts') plain'' (fun field => elements field ++ elements' field) s t := by
  refine ⟨h'.inCell.trans h.inCell, h'.records.trans h.records, ?_, ?_, fun field => ?_⟩
  · rw [h'.field, h.field]
    cases starts with
    | true => simp
    | false => simp
  · intro hstarts hopen
    obtain ⟨rfl, rfl⟩ := Bool.or_eq_false_iff.1 hstarts
    obtain ⟨cs, hcs, hu⟩ := h.text rfl hopen
    have hopen' : u.field.isSome = true := by
      rw [h.field]
      exact hopen
    obtain ⟨ds, hds, ht⟩ := h'.text rfl hopen'
    exact ⟨cs ++ ds, hplain cs ds hcs hds, by rw [ht, hu, List.append_assoc]⟩
  · rw [h'.value, h.value, lastText_append]

theorem State.value_eq (hname : t.name = s.name) (hcontents : t.contents = s.contents) (field : Field) :
    t.value field = s.value field := by
  cases field with
  | name => exact hname
  | contents => exact hcontents

theorem State.value_setField (s : State) (field other : Field) (text : List Char) :
    (s.setField field text).value other = if field = other then some text else s.value other := by
  cases field with
  | name => cases other with
    | name => rfl
    | contents => rfl
  | contents => cases other with
    | name => rfl
    | contents => rfl

theorem State.setField_frame (s : State) (field : Field) (text : List Char) :
    (s.setField field text).inCell = s.inCell ∧ (s.setField field text).records = s.records ∧
      (s.setField field text).field = s.field ∧ (s.setField field text).text = s.text := by
  cases field with
  | name => exact ⟨rfl, rfl, rfl, rfl⟩
  | contents => exact ⟨rfl, rfl, rfl, rfl⟩

theorem changes_text {raw : List Char} (h : step document s ⟨.text raw, 0⟩ = .ok u) :
    Changes false (unescape raw) (fun _ => []) s u := by
  change (if s.field.isSome then _ else _) = _ at h
  split at h
  · split at h
    · cases h
    · rename_i cs hcs
      obtain rfl := Except.ok.inj h
      exact ⟨rfl, rfl, rfl, fun _ _ => ⟨cs, hcs, rfl⟩, State.value_eq rfl rfl⟩
  · rename_i hclosed
    obtain rfl := Except.ok.inj h
    exact ⟨rfl, rfl, rfl, fun _ hopen => absurd hopen hclosed, State.value_eq rfl rfl⟩

theorem changes_verbatim {cs : List Char} (h : step document s ⟨.verbatim cs, 0⟩ = .ok u) :
    Changes false (.ok cs) (fun _ => []) s u := by
  obtain rfl := Except.ok.inj h
  split
  · exact ⟨rfl, rfl, rfl, fun _ _ => ⟨cs, rfl, rfl⟩, State.value_eq rfl rfl⟩
  · rename_i hclosed
    exact ⟨rfl, rfl, rfl, fun _ hopen => absurd hopen hclosed, State.value_eq rfl rfl⟩

theorem changes_empty {tag : Tag} (hcell : tag.name ≠ cellTag) (hin : s.inCell = true)
    (h : step document s ⟨.empty tag, 0⟩ = .ok u) : Changes false (.ok [])
      (fun field => if field? tag.name = some field then [.done] else []) s u := by
  cases hfield : field? tag.name with
  | none => exact .none (step_empty_other hcell hfield h)
  | some field =>
    rw [step_empty_field hfield, if_pos hin] at h
    obtain rfl := Except.ok.inj h
    obtain ⟨hinCell, hrecords, hopen, htext⟩ := s.setField_frame field []
    refine ⟨hinCell, hrecords, hopen, fun _ _ => ⟨[], rfl, ?_⟩, fun other => ?_⟩
    · rw [htext, List.append_nil]
    · rw [State.value_setField]
      by_cases hother : field = other
      · rw [if_pos hother, if_pos (congrArg some hother)]
        rfl
      · rw [if_neg hother, if_neg fun h => hother (Option.some.inj h)]
        rfl

theorem changes_field {tag : Tag} {inner : Forest} {field : Field} {s' : State}
    (hfield : field? tag.name = some field) (hin : s.inCell = true)
    (hstart : step document s ⟨.start tag, 0⟩ = .ok s')
    (hinner : Changes (startsField inner) inner.plainText (fields · inner) s' u)
    (hclose : step document u ⟨.close tag.name, 0⟩ = .ok t)
    (plain : Except ReferenceFault (List Char)) :
    Changes true plain (fun other => fields other inner ++
      if field? tag.name = some other ∧ startsField inner = false then [inner] else []) s t := by
  rw [step_start_field hfield, if_pos hin] at hstart
  rw [step_close_field hfield] at hclose
  obtain rfl := Except.ok.inj hstart
  obtain ⟨hinCell, hrecords, hopen, htext, hvalue⟩ := hinner
  have hvalue : ∀ other, u.value other = lastText (s.value other) (fields other inner) := hvalue
  dsimp only at hopen htext
  cases hstarts : startsField inner with
  | true =>
    rw [hstarts, if_pos rfl] at hopen
    rw [hopen, if_neg nofun] at hclose
    obtain rfl := Except.ok.inj hclose
    refine ⟨hinCell, hrecords, hopen, nofun, fun other => ?_⟩
    rw [if_neg (by simp), List.append_nil, hvalue]
  | false =>
    rw [hstarts, if_neg nofun] at hopen
    rw [if_pos hopen] at hclose
    obtain rfl := Except.ok.inj hclose
    obtain ⟨cs, hcs, hu⟩ := htext hstarts rfl
    rw [List.nil_append] at hu
    obtain ⟨hin', hrecords', -, -⟩ := u.setField_frame field u.text
    refine ⟨hin'.trans hinCell, hrecords'.trans hrecords, rfl, nofun, fun other => ?_⟩
    have hset : ({ u.setField field u.text with field := none, text := [] } : State).value other =
        (u.setField field u.text).value other := State.value_eq rfl rfl other
    rw [hset, State.value_setField, lastText_append, ← hvalue, hfield]
    by_cases hother : field = other
    · rw [if_pos hother, if_pos ⟨congrArg some hother, rfl⟩, hu]
      unfold lastText
      simp [hcs, Except.toOption]
    · rw [if_neg hother, if_neg fun h => hother (Option.some.inj h.1)]
      rfl

theorem changes_other {tag : Tag} {inner : Forest} {s' : State} (hcell : tag.name ≠ cellTag)
    (hfield : field? tag.name = none) (hstart : step document s ⟨.start tag, 0⟩ = .ok s')
    (hinner : Changes (startsField inner) inner.plainText (fields · inner) s' u)
    (hclose : step document u ⟨.close tag.name, 0⟩ = .ok t) :
    Changes (startsField inner) inner.plainText (fields · inner) s t := by
  rw [step_close_other hcell hfield] at hclose
  obtain rfl := Except.ok.inj hclose
  exact (Changes.none (step_start_other hcell hfield hstart)).trans hinner fun cs ds hcs hds => by
    obtain rfl := Except.ok.inj hcs
    exact hds

theorem changes_run {forest : Forest} (hcells : cells forest = []) (hin : s.inCell = true)
    (h : run document forest.events s = .ok t) :
    Changes (startsField forest) forest.plainText (fields · forest) s t := by
  induction forest generalizing s t with
  | done =>
    obtain rfl := Except.ok.inj h
    exact .none rfl
  | text raw rest ih =>
    obtain ⟨u, hstep, hrest⟩ := run_cons_eq_ok h
    have hfirst := changes_text hstep
    refine hfirst.trans (ih hcells (hfirst.inCell.trans hin) hrest) fun cs ds hcs hds => ?_
    rw [Forest.plainText, hcs, hds]
    rfl
  | verbatim cs rest ih =>
    obtain ⟨u, hstep, hrest⟩ := run_cons_eq_ok h
    have hfirst := changes_verbatim hstep
    refine hfirst.trans (ih hcells (hfirst.inCell.trans hin) hrest) fun cs' ds hcs hds => ?_
    obtain rfl := Except.ok.inj hcs
    rw [Forest.plainText, hds]
    rfl
  | aside rest ih => exact ih hcells hin h
  | empty tag rest ih =>
    obtain ⟨u, hstep, hrest⟩ := run_cons_eq_ok h
    unfold cells at hcells
    split at hcells
    · cases hcells
    rename_i hcell
    have hfirst := changes_empty hcell hin hstep
    refine hfirst.trans (ih hcells (hfirst.inCell.trans hin) hrest) fun cs ds hcs hds => ?_
    obtain rfl := Except.ok.inj hcs
    exact hds
  | element tag inner rest ihinner ih =>
    obtain ⟨s', hstart, h⟩ := run_cons_eq_ok h
    obtain ⟨u, hinner, h⟩ := run_append_eq_ok h
    obtain ⟨u', hclose, hrest⟩ := run_cons_eq_ok h
    unfold cells at hcells
    split at hcells
    · cases hcells
    rename_i hcell
    obtain ⟨hinnerCells, hrestCells⟩ := List.append_eq_nil_iff.1 hcells
    cases hfield : field? tag.name with
    | some field =>
      have hin' : s'.inCell = true := by
        rw [step_start_field hfield, if_pos hin] at hstart
        obtain rfl := Except.ok.inj hstart
        exact hin
      have helement := changes_field hfield hin hstart (ihinner hinnerCells hin' hinner) hclose
        inner.plainText
      have hafter := ih hrestCells (helement.inCell.trans hin) hrest
      have hstarts : startsField (.element tag inner rest) = (true || startsField rest) := by
        rw [startsField, hfield]
        rfl
      rw [hstarts]
      refine helement.trans hafter fun cs ds hcs hds => ?_
      rw [Forest.plainText, hcs, hds]
      rfl
    | none =>
      have hin' : s'.inCell = true := by
        rw [step_start_other hcell hfield hstart]
        exact hin
      have helement := changes_other hcell hfield hstart (ihinner hinnerCells hin' hinner) hclose
      have hafter := ih hrestCells (helement.inCell.trans hin) hrest
      have hstarts : startsField (.element tag inner rest) =
          (startsField inner || startsField rest) := by
        rw [startsField, hfield]
        rfl
      have hfields : (fields · (.element tag inner rest)) =
          fun field => fields field inner ++ fields field rest := by
        funext field
        rw [fields, hfield, if_neg (by simp), List.append_nil]
      rw [hstarts, hfields]
      refine helement.trans hafter fun cs ds hcs hds => ?_
      rw [Forest.plainText, hcs, hds]
      rfl

end inside

section records

/-- A forest with these cells adds the records of those without a cell in them, and it leaves no cell open
if it has any. -/
def Gains (found : List Forest) (s t : State) : Prop :=
  ∃ new : List Record, t.records = new.reverse ++ s.records ∧
    (found.filter fun cell => (cells cell).isEmpty).map record? = new.map some ∧
    t.inCell = (s.inCell && found.isEmpty)

variable {document : List Char} {s t u : State}

theorem Gains.none (hrecords : t.records = s.records) (hin : t.inCell = s.inCell) : Gains [] s t :=
  ⟨[], hrecords, rfl, by rw [hin]; exact (Bool.and_true _).symm⟩

theorem Gains.trans {found found' : List Forest} (h : Gains found s u) (h' : Gains found' u t) :
    Gains (found ++ found') s t := by
  obtain ⟨new, hrecords, hnew, hin⟩ := h
  obtain ⟨new', hrecords', hnew', hin'⟩ := h'
  refine ⟨new ++ new', ?_, ?_, ?_⟩
  · rw [hrecords', hrecords, List.reverse_append, List.append_assoc]
  · rw [List.filter_append, List.map_append, List.map_append, hnew, hnew']
  · rw [hin', hin, Bool.and_assoc]
    cases found with
    | nil => rfl
    | cons _ _ => rfl

/-- A cell gives its record when it is closed, unless another cell was closed in it. -/
theorem gains_cell {inner : Forest} {s' : State} {tag : Tag} (hcell : tag.name = cellTag)
    (hstart : step document s ⟨.start tag, 0⟩ = .ok s')
    (hrun : run document inner.events s' = .ok u) (hinner : Gains (cells inner) s' u)
    (hclose : step document u ⟨.close tag.name, 0⟩ = .ok t) : Gains (inner :: cells inner) s t := by
  rw [step_start_cell hcell] at hstart
  rw [hcell] at hclose
  obtain rfl := Except.ok.inj hstart
  cases hcells : cells inner with
  | nil =>
    have hchanges := changes_run hcells rfl hrun
    obtain ⟨name, contents, hname, hcontents, rfl⟩ :=
      step_close_cell (hchanges.inCell.trans rfl) hclose
    have hrecord : record? inner =
        some ⟨String.ofList (Text.trimList name), String.ofList contents⟩ := by
      have hnameText := (hchanges.value .name).symm.trans hname
      have hcontentsText := (hchanges.value .contents).symm.trans hcontents
      unfold record?
      rw [show lastText none (fields .name inner) = some name from hnameText,
        show lastText none (fields .contents inner) = some contents from hcontentsText]
    refine ⟨[⟨String.ofList (Text.trimList name), String.ofList contents⟩], ?_, ?_, ?_⟩
    · dsimp only
      rw [hchanges.records]
      rfl
    · simp [hcells, hrecord]
    · simp
  | cons cell rest =>
    obtain ⟨new, hrecords, hnew, hin⟩ := hinner
    rw [hcells] at hin
    rw [step_close_outside (hin.trans (Bool.and_false _))] at hclose
    obtain rfl := Except.ok.inj hclose
    refine ⟨new, hrecords, ?_, ?_⟩
    · rw [← hnew, hcells, List.filter_cons_of_neg (by simp [hcells])]
    · rw [hin]
      simp

theorem gains_empty {tag : Tag} (hcell : tag.name ≠ cellTag)
    (h : step document s ⟨.empty tag, 0⟩ = .ok t) : Gains [] s t := by
  cases hfield : field? tag.name with
  | none =>
    rw [step_empty_other hcell hfield h]
    exact .none rfl rfl
  | some field =>
    rw [step_empty_field hfield] at h
    obtain rfl := Except.ok.inj h
    split
    · exact .none (s.setField_frame field []).2.1 (s.setField_frame field []).1
    · exact .none rfl rfl

theorem gains_start {tag : Tag} (hcell : tag.name ≠ cellTag)
    (h : step document s ⟨.start tag, 0⟩ = .ok t) : Gains [] s t := by
  cases hfield : field? tag.name with
  | none =>
    rw [step_start_other hcell hfield h]
    exact .none rfl rfl
  | some field =>
    rw [step_start_field hfield] at h
    obtain rfl := Except.ok.inj h
    split
    · exact .none rfl rfl
    · exact .none rfl rfl

theorem gains_close {name : List Char} (hcell : name ≠ cellTag)
    (h : step document s ⟨.close name, 0⟩ = .ok t) : Gains [] s t := by
  cases hfield : field? name with
  | none =>
    rw [step_close_other hcell hfield] at h
    obtain rfl := Except.ok.inj h
    exact .none rfl rfl
  | some field =>
    rw [step_close_field hfield] at h
    obtain rfl := Except.ok.inj h
    split
    · exact .none (s.setField_frame field s.text).2.1 (s.setField_frame field s.text).1
    · exact .none rfl rfl

theorem gains_run {forest : Forest} (h : run document forest.events s = .ok t) :
    Gains (cells forest) s t := by
  induction forest generalizing s t with
  | done =>
    obtain rfl := Except.ok.inj h
    exact .none rfl rfl
  | text raw rest ih =>
    obtain ⟨u, hstep, hrest⟩ := run_cons_eq_ok h
    have hfirst := changes_text hstep
    exact (Gains.none hfirst.records hfirst.inCell).trans (ih hrest)
  | verbatim cs rest ih =>
    obtain ⟨u, hstep, hrest⟩ := run_cons_eq_ok h
    have hfirst := changes_verbatim hstep
    exact (Gains.none hfirst.records hfirst.inCell).trans (ih hrest)
  | aside rest ih => exact ih h
  | empty tag rest ih =>
    obtain ⟨u, hstep, hrest⟩ := run_cons_eq_ok h
    have hcell : tag.name ≠ cellTag := fun hcell => step_empty_cell hcell hstep
    unfold cells
    rw [if_neg hcell]
    exact (gains_empty hcell hstep).trans (ih hrest)
  | element tag inner rest ihinner ih =>
    obtain ⟨s', hstart, h⟩ := run_cons_eq_ok h
    obtain ⟨u, hinner, h⟩ := run_append_eq_ok h
    obtain ⟨u', hclose, hrest⟩ := run_cons_eq_ok h
    unfold cells
    split
    · rename_i hcell
      exact (gains_cell hcell hstart hinner (ihinner hinner) hclose).trans (ih hrest)
    · rename_i hcell
      have helement := ((gains_start hcell hstart).trans (ihinner hinner)).trans
        (gains_close hcell hclose)
      rw [List.append_nil] at helement
      exact helement.trans (ih hrest)

end records

def AllClosed (text : String) : Prop := openedAfter [] (eventsOf text) = []

theorem run_of_decode {text : String} {s : Snapshot} (h : decode text = .ok s) :
    ∃ t, run text.toList (eventsOf text) .initial = .ok t ∧ finish t = .ok s := by
  unfold decode at h
  dsimp only at h
  split at h
  · cases h
  rename_i t hrun
  split at h
  · cases h
  exact ⟨t, foldlM_iff_run.1 hrun, h⟩

theorem records_finish {t : State} {s : Snapshot} (h : finish t = .ok s) :
    s.records = t.records.reverse := by
  unfold finish at h
  split at h
  · obtain rfl := Except.ok.inj h
    rfl
  · cases h

theorem nested_eventsOf (text : String) : Nested [] (eventsOf text) := nested_read _

/-- The records are those of the cells without a cell in them, in order, each with the last name and the
last contents in it. So there are as many records as cells exactly if no cell stands in another one. -/
theorem decode_innermost {text : String} {s : Snapshot} (hclosed : AllClosed text)
    (h : decode text = .ok s) : ∃ forest, eventsOf text = forest.events ∧
      (innermost forest).map record? = s.records.map some ∧
      (s.records.length = (cells forest).length ↔ ∀ cell ∈ cells forest, cells cell = []) := by
  obtain ⟨forest, hforest⟩ := exists_forest (nested_eventsOf text) hclosed
  obtain ⟨t, hrun, hfinish⟩ := run_of_decode h
  rw [hforest] at hrun
  obtain ⟨new, hrecords, hnew, -⟩ := gains_run hrun
  have hall : s.records = new := by
    rw [records_finish hfinish, hrecords]
    simp [State.initial]
  have hinnermost : (innermost forest).map record? = s.records.map some := by
    rw [hall]
    exact hnew
  refine ⟨forest, hforest, hinnermost, ?_⟩
  have hlength := congrArg List.length hinnermost
  rw [List.length_map, List.length_map] at hlength
  rw [← hlength]
  unfold innermost
  rw [List.length_filter_eq_length_iff]
  simp only [List.isEmpty_iff]

/-- A cell with two names, the second one around another element. -/
def renamed : String :=
  "<spreadsheet version=\"v\"><cell><name>B1</name><name> A<b>1</b></name>" ++
    "<contents><![CDATA[<]]>2</contents></cell></spreadsheet>"

set_option maxRecDepth 4000 in
/-- The cell is not lost, and carries its last name. -/
theorem decode_innermost_renamed :
    AllClosed renamed ∧ decode renamed = .ok ⟨"v", [⟨"A1", "<2"⟩]⟩ ∧
      ∃ forest, eventsOf renamed = forest.events ∧
        (innermost forest).map record? = [some ⟨"A1", "<2"⟩] ∧
        ([(⟨"A1", "<2"⟩ : Record)].length = (cells forest).length ↔
          ∀ cell ∈ cells forest, cells cell = []) := by
  have hclosed : AllClosed renamed := by
    unfold AllClosed
    decide +kernel
  have hdecode : decode renamed = .ok ⟨"v", [⟨"A1", "<2"⟩]⟩ := by with_unfolding_all rfl
  exact ⟨hclosed, hdecode, decode_innermost hclosed hdecode⟩

/-- A cell in another one, all elements closed. -/
def cellInCell : String :=
  "<spreadsheet version=\"v\"><cell><cell><name>A1</name><contents>1</contents></cell></cell></spreadsheet>"

set_option maxRecDepth 4000 in
/-- The outer cell has no name and no contents, and is dropped. -/
theorem decode_drops_outer_cell :
    AllClosed cellInCell ∧ decode cellInCell = .ok ⟨"v", [⟨"A1", "1"⟩]⟩ ∧
      ∃ forest, eventsOf cellInCell = forest.events ∧ (cells forest).length = 2 := by
  let inner : Forest := .element ⟨nameTag, []⟩ (.text "A1".toList .done)
    (.element ⟨contentsTag, []⟩ (.text "1".toList .done) .done)
  let outer : Forest := .element ⟨cellTag, []⟩ inner .done
  have hclosed : AllClosed cellInCell := by
    unfold AllClosed
    decide +kernel
  refine ⟨hclosed, by with_unfolding_all rfl, .element ⟨spreadsheet, attributes "v"⟩
    (.element ⟨cellTag, []⟩ outer .done) .done, ?_, rfl⟩
  decide +kernel

end Worksheet.Xml
