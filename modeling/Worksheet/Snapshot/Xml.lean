import Worksheet.Snapshot.Basic
import Worksheet.Snapshot.Fault
import Worksheet.Text.Basic

set_option autoImplicit false

/-!
# The XML format

A `spreadsheet` element with a `version` attribute holds a `cell` element for each record, and that a
`name` and a `contents` element. Elements and attributes of other names are passed over, and so is the
nesting: a field is read wherever it stands after the start of a cell.
-/
namespace Worksheet.Xml
open Worksheet.Markup

inductive Field where
  | name
  | contents
deriving DecidableEq, Repr

structure State where
  version : Option String
  records : List Record
  inCell : Bool
  field : Option Field
  text : List Char
  name : Option (List Char)
  contents : Option (List Char)
deriving DecidableEq, Repr

def State.initial : State := ⟨none, [], false, none, [], none, none⟩

def spreadsheet : List Char := "spreadsheet".toList

def field? (name : List Char) : Option Field :=
  if name = "name".toList then some .name
  else if name = "contents".toList then some .contents
  else none

def State.setField (s : State) (field : Field) (text : List Char) : State :=
  match field with
  | .name => { s with name := some text }
  | .contents => { s with contents := some text }

def versionOf (tag : Tag) : Except DecodeError (Option String) :=
  match tag.attribute "version" with
  | .error fault => .error (.markup (.attribute fault))
  | .ok none => .ok none
  | .ok (some raw) =>
    match unescape raw with
    | .error fault => .error (.markup (.reference fault))
    | .ok text => .ok (some (String.ofList text))

/-- The number of the line on which byte `position` of a document stands. -/
def lineAt : Nat → List Char → Nat
  | 0, _ => 1
  | _ + 1, [] => 1
  | position + 1, c :: cs =>
    (if c = '\n' then 1 else 0) + lineAt (position + 1 - c.utf8Size) cs

def opens (s : State) (tag : Tag) : Except DecodeError State :=
  if tag.name = spreadsheet then
    (versionOf tag).map fun version => { s with version }
  else if tag.name = "cell".toList then
    .ok { s with inCell := true, name := none, contents := none }
  else match field? tag.name with
    | some field => .ok (if s.inCell then { s with field := some field, text := [] } else s)
    | none => .ok s

/-- The fault of a cell that ends on the line of an item without a name or without contents. -/
def incomplete (document : List Char) (item : Item) : DecodeError :=
  .atLine (lineAt item.stop document) .incompleteCell

/-- A tag without content gives its field empty contents; a cell has to have some. -/
def opensAndCloses (document : List Char) (item : Item) (s : State) (tag : Tag) :
    Except DecodeError State :=
  if tag.name = spreadsheet then
    (versionOf tag).map fun version => { s with version }
  else if tag.name = "cell".toList then .error (incomplete document item)
  else match field? tag.name with
    | some field => .ok (if s.inCell then s.setField field [] else s)
    | none => .ok s

/-- A field ends with its own closing tag, and a cell has to have both fields by then. Blanks around a
name do not count. -/
def closes (document : List Char) (item : Item) (s : State) (tag : List Char) :
    Except DecodeError State :=
  if tag = "cell".toList ∧ s.inCell then
    match s.name, s.contents with
    | some name, some contents =>
      .ok { s with
        inCell := false
        name := none
        contents := none
        records := ⟨String.ofList (Text.trimList name), String.ofList contents⟩ :: s.records }
    | _, _ => .error (incomplete document item)
  else match field? tag with
    | some field =>
      if s.field = some field then
        .ok { s.setField field s.text with field := none, text := [] }
      else .ok s
    | none => .ok s

def step (document : List Char) (s : State) (item : Item) : Except DecodeError State :=
  match item.event with
  | .start tag => opens s tag
  | .empty tag => opensAndCloses document item s tag
  | .close name => closes document item s name
  | .text raw =>
    if s.field.isSome then
      match unescape raw with
      | .error fault => .error (.markup (.reference fault))
      | .ok text => .ok { s with text := s.text ++ text }
    else .ok s
  | .verbatim text => .ok (if s.field.isSome then { s with text := s.text ++ text } else s)
  | .aside => .ok s

def finish (s : State) : Except DecodeError Snapshot :=
  match s.version with
  | some version => .ok ⟨version, s.records.reverse⟩
  | none => .error .noVersion

def decode (text : String) : Except DecodeError Snapshot :=
  let document := text.toList
  let reading := Markup.read document
  match reading.items.foldlM (step document) .initial with
  | .error e => .error e
  | .ok s =>
    match reading.fault with
    | some fault => .error (.markup fault)
    | none => finish s

def firstSpreadsheet? : List Item → Option Tag
  | [] => none
  | item :: items =>
    match item.event with
    | .start tag | .empty tag =>
      if tag.name = spreadsheet then some tag else firstSpreadsheet? items
    | _ => firstSpreadsheet? items

/-- Read only the version, which the first tag of a spreadsheet has to carry. -/
def decodeVersion (text : String) : Except DecodeError String :=
  let reading := Markup.read text.toList
  match firstSpreadsheet? reading.items with
  | some tag =>
    match versionOf tag with
    | .error e => .error e
    | .ok (some version) => .ok version
    | .ok none => .error .noVersion
  | none =>
    match reading.fault with
    | some fault => .error (.markup fault)
    | none => .error .noVersion

def encodeRecord (r : Record) : List Char :=
  "  <cell>\n    <name>".toList ++ escape r.name.toList ++ "</name>\n    <contents>".toList ++
    escape r.contents.toList ++ "</contents>\n  </cell>\n".toList

def encode (s : Snapshot) : String :=
  String.ofList ("<?xml version=\"1.0\" encoding=\"utf-8\"?>\n<spreadsheet version=\"".toList ++
    escape s.version.toList ++ "\">\n".toList ++ s.records.flatMap encodeRecord ++
    "</spreadsheet>\n".toList)

end Worksheet.Xml
