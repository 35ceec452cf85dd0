import Worksheet.Text.Character

set_option autoImplicit false

/-!
# Texts as lists of characters

Their sizes in bytes, what is left of them without blanks at the ends, and their lines. A line ends at a
line feed, with one carriage return before it dropped. A last line without a line feed counts when it is
not empty, and keeps its carriage return.
-/
namespace Worksheet.Text

def bytes : List Char → Nat
  | [] => 0
  | c :: cs => c.utf8Size + bytes cs

def trimList (cs : List Char) : List Char :=
  ((cs.dropWhile isBlank).reverse.dropWhile isBlank).reverse

def trim (s : String) : String := String.ofList (trimList s.toList)

def lines : List Char → List (List Char)
  | [] => []
  | '\r' :: '\n' :: rest => [] :: lines rest
  | '\n' :: rest => [] :: lines rest
  | c :: rest =>
    match lines rest with
    | [] => [[c]]
    | l :: ls => (c :: l) :: ls

end Worksheet.Text
