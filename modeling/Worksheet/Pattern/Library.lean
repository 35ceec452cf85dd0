import Worksheet.Pattern.Basic

set_option autoImplicit false

/-!
# Libraries of expressions

What a pattern means depends on tables of all characters, and whether it is taken depends on bounds. Both
change from one version of an expression library to the next, so they are parameters, and so is what the
library says of a pattern that it refuses.
-/
namespace Worksheet.Pattern

/-- What a class is asked for by: one letter, a name, or a property and its value. -/
inductive Property where
  | letter (c : Char)
  | named (name : List Char)
  | valued (name value : List Char)

/-- A part of a pattern with the depth of its nesting. A switch only changes flags. -/
structure Item where
  regex : Regex
  depth : Nat
  isSwitch : Bool

structure Library where
  /-- The characters with a property, if it is known. -/
  property? : Property → Option CharClass
  digit : CharClass
  blank : CharClass
  word : CharClass
  /-- All characters that differ from a member at most in case. -/
  caseClosure : CharClass → CharClass
  isLetter : Char → Bool
  isNumeral : Char → Bool
  /-- The text, which was read as an item, is within the bounds on nesting and on compiled size. -/
  fits : String → Item → Bool
  /-- The message for a text that is refused. -/
  complaint : String → String

end Worksheet.Pattern
