import Worksheet.Markup.Tag

set_option autoImplicit false

/-!
# Reading markup

A document is read as a list of events up to its end or to the first fault. Tags have to close each other
in order, but what is still open at the end of the document does not matter, and the end also ends a
closing tag.
-/
namespace Worksheet.Markup
open Worksheet.Text (bytes)

inductive Event where
  | start (tag : Tag)
  | empty (tag : Tag)
  | close (name : List Char)
  | text (raw : List Char)
  /-- Text that is meant as it stands. -/
  | verbatim (text : List Char)
  /-- Comments, declarations and instructions. -/
  | aside
deriving DecidableEq, Repr

/-- What a document ends in the middle of. -/
inductive Construct where
  | element
  | declaration
  | comment
  | verbatim
  | doctype
  | instruction
deriving DecidableEq, Repr

def Construct.text : Construct → String
  | .element => "Element"
  | .declaration => "Bang"
  | .comment => "Comment"
  | .verbatim => "CData"
  | .doctype => "DOCTYPE"
  | .instruction => "XmlDecl"

inductive Fault where
  | unfinished (construct : Construct)
  | unknownDeclaration (c : Char)
  | emptyDoctype
  | mismatch (expected found : List Char)
  | attribute (fault : AttributeFault)
  | reference (fault : ReferenceFault)
deriving DecidableEq, Repr

def Fault.message : Fault → String
  | .unfinished c => s!"Unexpected EOF during reading {c.text}"
  | .unknownDeclaration c =>
    "Only Comment (\x60--\x60), CDATA (\x60[CDATA[\x60) and DOCTYPE (\x60DOCTYPE\x60) nodes can " ++
      s!"start with a '!', but symbol \x60{c}\x60 found"
  | .emptyDoctype => "DOCTYPE declaration must not be empty"
  | .mismatch expected found =>
    s!"Expecting </{String.ofList expected}> found </{String.ofList found}>"
  | .attribute fault => "error while parsing attribute: " ++ fault.message
  | .reference fault => fault.message

def Fault.causes (fault : Fault) : List String :=
  fault.message :: match fault with
    | .attribute inner => [inner.message]
    | .reference inner => [inner.message]
    | _ => []

/-- An event with the number of characters that it takes after the `<`. -/
structure Piece where
  event : Event
  length : Nat
deriving DecidableEq, Repr

/-- The number of characters before the first `>` at which `closes` holds of them, last first. -/
def stop? (closes : List Char → Bool) (before : List Char) : List Char → Option Nat
  | [] => none
  | c :: cs =>
    if c == '>' && closes before then some 0
    else (stop? closes (c :: before) cs).map (· + 1)

/-- The number of characters before the first `>` outside quotes. -/
def tagLength? (quote : Option Char) : List Char → Option Nat
  | [] => none
  | c :: cs =>
    match quote with
    | some q => (tagLength? (if c == q then none else some q) cs).map (· + 1)
    | none =>
      if c == '>' then some 0
      else (tagLength? (if c == '"' || c == '\'' then some c else none) cs).map (· + 1)

def tag (cs : List Char) : Except Fault Piece :=
  match tagLength? none cs with
  | none => .error (.unfinished .element)
  | some n =>
    let content := cs.take n
    if content.getLast? = some '/' then
      let content := content.dropLast
      .ok ⟨.empty ⟨content.takeWhile (!isGap ·), content.dropWhile (!isGap ·)⟩, n + 1⟩
    else .ok ⟨.start ⟨content.takeWhile (!isGap ·), content.dropWhile (!isGap ·)⟩, n + 1⟩

/-- The name in a closing tag. Gaps behind it do not count, unless there is nothing else. -/
def closingName (content : List Char) : List Char :=
  match (content.reverse.dropWhile isGap).reverse with
  | [] => content
  | name => name

def closing (opened : List (List Char)) (cs : List Char) : Except Fault Piece :=
  let content := cs.takeWhile (· ≠ '>')
  match opened with
  | [] => .error (.mismatch [] content)
  | expected :: _ =>
    let name := closingName content
    if name = expected then .ok ⟨.close name, content.length + 2⟩
    else .error (.mismatch expected name)

def instruction (cs : List Char) : Except Fault Piece :=
  let content := cs.takeWhile (· ≠ '>')
  if 2 ≤ content.length ∧ content.getLast? = some '?' then .ok ⟨.aside, content.length + 2⟩
  else .error (.unfinished .instruction)

def commentCloses : List Char → Bool
  | '-' :: '-' :: before => decide (3 ≤ before.length)
  | _ => false

def verbatimCloses : List Char → Bool
  | ']' :: ']' :: _ => true
  | _ => false

def doctypeCloses (before : List Char) : Bool := before.count '<' == before.count '>'

/-- The content starts with a mark in upper case, letter case ignored. -/
def startsWith (mark : String) (content : List Char) : Bool :=
  mark.toList.isPrefixOf ((content.take mark.length).map Char.toUpper)

/-- A comment, a verbatim text or a document type; `cs` starts with an exclamation mark. -/
def declaration (cs : List Char) : Except Fault Piece :=
  match cs.drop 1 with
  | [] => .error (.unfinished .declaration)
  | '-' :: _ =>
    match stop? commentCloses [] cs with
    | some n =>
      if "!--".toList.isPrefixOf cs then .ok ⟨.aside, n + 1⟩ else .error (.unfinished .comment)
    | none => .error (.unfinished .comment)
  | '[' :: _ =>
    match stop? verbatimCloses [] cs with
    | some n =>
      if startsWith "![CDATA[" cs then .ok ⟨.verbatim ((cs.take (n - 2)).drop 8), n + 1⟩
      else .error (.unfinished .verbatim)
    | none => .error (.unfinished .verbatim)
  | c :: _ =>
    if c = 'D' ∨ c = 'd' then
      match stop? doctypeCloses [] cs with
      | some n =>
        if startsWith "!DOCTYPE" (cs.take n) then
          if ((cs.take n).drop 8).all isGap then .error .emptyDoctype else .ok ⟨.aside, n + 1⟩
        else .error (.unfinished .doctype)
      | none => .error (.unfinished .doctype)
    else .error (.unknownDeclaration (leadingByte c))

/-- What stands after a `<`, inside the elements `opened`, innermost first. -/
def piece (opened : List (List Char)) : List Char → Except Fault Piece
  | '!' :: cs => declaration ('!' :: cs)
  | '/' :: cs => closing opened cs
  | '?' :: cs => instruction cs
  | cs => tag cs

def Event.openedAfter : Event → List (List Char) → List (List Char)
  | .start tag, opened => tag.name :: opened
  | .close _, opened => opened.drop 1
  | _, opened => opened

structure Item where
  event : Event
  stop : Nat
deriving DecidableEq, Repr

structure Reading where
  items : List Item
  fault : Option Fault
deriving DecidableEq, Repr

/-- Read on from byte `offset` inside the elements `opened`: the text up to the next `<`, what stands
after that, and the rest. -/
def readFrom (offset : Nat) (opened : List (List Char)) (cs : List Char) : Reading :=
  let text := cs.takeWhile (· ≠ '<')
  let body := cs.drop (text.length + 1)
  let offset := offset + bytes text
  let before : List Item := if text = [] then [] else [⟨.text text, offset⟩]
  if _h : body = [] then ⟨before, none⟩
  else match piece opened body with
    | .error fault => ⟨before, some fault⟩
    | .ok p =>
      let stop := offset + 1 + bytes (body.take p.length)
      let rest := readFrom stop (p.event.openedAfter opened) (body.drop p.length)
      ⟨before ++ ⟨p.event, stop⟩ :: rest.items, rest.fault⟩
termination_by cs.length
decreasing_by
  have : 0 < body.length := List.length_pos_iff.2 (by assumption)
  simp only [body, List.length_drop] at this ⊢
  omega

/-- The events of a document. A byte order mark in front of it is dropped and not counted. -/
def read (cs : List Char) : Reading :=
  match cs with
  | '\ufeff' :: cs => readFrom 0 [] cs
  | cs => readFrom 0 [] cs

end Worksheet.Markup
