import Worksheet.Markup.Reference

set_option autoImplicit false

/-!
# Tags

A tag has a name and, after it, attributes. Attributes are read one after the other, and only as far as
needed, so a fault behind the wanted one does not show. Faults tell byte positions in the tag.
-/
namespace Worksheet.Markup
open Worksheet.Text (bytes)

structure Tag where
  name : List Char
  attributes : List Char
deriving DecidableEq, Repr

inductive AttributeFault where
  | wantsEqual (position : Nat)
  | wantsValue (position : Nat)
  | unquoted (position : Nat)
  | unclosed (position : Nat) (quote : Char)
  | repeated (position previous : Nat)
deriving DecidableEq, Repr

def AttributeFault.message : AttributeFault → String
  | .wantsEqual p =>
    s!"position {p}: attribute key must be directly followed by \x60=\x60 or space"
  | .wantsValue p => s!"position {p}: \x60=\x60 must be followed by an attribute value"
  | .unquoted p => s!"position {p}: attribute value must be enclosed in \x60\"\x60 or \x60'\x60"
  | .unclosed p quote => s!"position {p}: missing closing quote \x60{quote}\x60 in attribute value"
  | .repeated p previous =>
    s!"position {p}: duplicated attribute, previous declaration at position {previous}"

def isGap (c : Char) : Bool := c == ' ' || c == '\t' || c == '\n' || c == '\r'

/-- An attribute, with its place and its length in characters together with the gap before it. -/
structure Attribute where
  key : List Char
  value : List Char
  position : Nat
  length : Nat
deriving DecidableEq, Repr

/-- The quoted value that follows an equals sign, at byte `offset` of a tag of `size` bytes, with the
number of characters up to its end. -/
def attributeValue (size offset : Nat) (cs : List Char) :
    Except AttributeFault (List Char × Nat) :=
  let gap := cs.takeWhile isGap
  match cs.dropWhile isGap with
  | [] => .error (.wantsValue size)
  | quote :: cs =>
    if quote = '"' ∨ quote = '\'' then
      let value := cs.takeWhile (· ≠ quote)
      if cs.contains quote then .ok (value, gap.length + value.length + 2)
      else .error (.unclosed size quote)
    else .error (.unquoted (offset + bytes gap))

/-- The attribute at byte `offset` of a tag of `size` bytes, if another one follows. A key ends at an
equals sign or a gap, and may start with an equals sign. -/
def nextAttribute (size : Nat) (seen : List Attribute) (offset : Nat) (cs : List Char) :
    Except AttributeFault (Option Attribute) :=
  let gap := cs.takeWhile isGap
  match cs.dropWhile isGap with
  | [] => .ok none
  | first :: cs =>
    let position := offset + bytes gap
    let key := first :: cs.takeWhile fun c => !(c == '=' || isGap c)
    let cs := cs.dropWhile fun c => !(c == '=' || isGap c)
    let space := cs.takeWhile isGap
    match cs.dropWhile isGap with
    | [] => .error (.wantsEqual size)
    | '=' :: cs =>
      match seen.find? (·.key == key) with
      | some previous => .error (.repeated position previous.position)
      | none =>
        match attributeValue size (position + bytes key + bytes space + 1) cs with
        | .error fault => .error fault
        | .ok (value, length) =>
          .ok (some ⟨key, value, position, gap.length + key.length + space.length + 1 + length⟩)
    | _ :: _ => .error (.wantsEqual (position + bytes key + bytes space))

/-- The value of the first attribute with the wanted key in the rest of a tag. At most `count`
attributes are read. -/
def findAttribute (size : Nat) (wanted : List Char) :
    Nat → List Attribute → Nat → List Char → Except AttributeFault (Option (List Char))
  | 0, _, _, _ => .ok none
  | count + 1, seen, offset, cs =>
    match nextAttribute size seen offset cs with
    | .error fault => .error fault
    | .ok none => .ok none
    | .ok (some a) =>
      if a.key = wanted then .ok (some a.value)
      else findAttribute size wanted count (a :: seen) (offset + bytes (cs.take a.length))
        (cs.drop a.length)

/-- The value of an attribute as it is written; every attribute takes characters, so there are no more
of them than characters. -/
def Tag.attribute (tag : Tag) (key : String) : Except AttributeFault (Option (List Char)) :=
  findAttribute (bytes tag.name + bytes tag.attributes) key.toList (tag.attributes.length + 1) []
    (bytes tag.name) tag.attributes

end Worksheet.Markup
