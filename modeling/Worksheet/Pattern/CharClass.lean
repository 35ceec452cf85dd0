import Worksheet.Text.Character

set_option autoImplicit false

/-!
# Character classes

A class is a predicate on code points. The classes of ASCII that a pattern can name have their ranges
here; those of all characters are a matter of tables.
-/
namespace Worksheet.Pattern
open Worksheet.Text

abbrev CharClass := Nat → Bool

namespace CharClass

def none : CharClass := fun _ => false

def single (c : Char) : CharClass := fun n => n == c.toNat

def range (lo hi : Char) : CharClass := fun n => decide (lo.toNat ≤ n) && decide (n ≤ hi.toNat)

def union (a b : CharClass) : CharClass := fun n => a n || b n

def negate (a : CharClass) : CharClass := fun n => !a n

def asciiCaseClosure (a : CharClass) : CharClass := fun n =>
  a n || (decide (n < 128) && (a (Char.ofNat n).toUpper.toNat || a (Char.ofNat n).toLower.toNat))

def hasHighByte (a : CharClass) : Bool := (List.range 128).any fun k => a (128 + k)

end CharClass

def asciiDigit : CharClass := within [(0x30, 0x39)]

def asciiBlank : CharClass := within [(0x9, 0xd), (0x20, 0x20)]

def asciiWord : CharClass := within [(0x30, 0x39), (0x41, 0x5a), (0x5f, 0x5f), (0x61, 0x7a)]

def asciiClass? : String → Option CharClass
  | "alnum" => some (within [(0x30, 0x39), (0x41, 0x5a), (0x61, 0x7a)])
  | "alpha" => some (within [(0x41, 0x5a), (0x61, 0x7a)])
  | "ascii" => some (within [(0x0, 0x7f)])
  | "blank" => some (within [(0x9, 0x9), (0x20, 0x20)])
  | "cntrl" => some (within [(0x0, 0x1f), (0x7f, 0x7f)])
  | "digit" => some asciiDigit
  | "graph" => some (within [(0x21, 0x7e)])
  | "lower" => some (within [(0x61, 0x7a)])
  | "print" => some (within [(0x20, 0x7e)])
  | "punct" => some (within [(0x21, 0x2f), (0x3a, 0x40), (0x5b, 0x60), (0x7b, 0x7e)])
  | "space" => some asciiBlank
  | "upper" => some (within [(0x41, 0x5a)])
  | "word" => some asciiWord
  | "xdigit" => some (within [(0x30, 0x39), (0x41, 0x46), (0x61, 0x66)])
  | _ => Option.none

end Worksheet.Pattern
