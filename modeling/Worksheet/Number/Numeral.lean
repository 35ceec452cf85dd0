import Worksheet.Number.Shortest

set_option autoImplicit false

/-!
# Numbers as text

Numbers are written positionally with the fewest digits that identify them, whole numbers without a
point. Reading accepts a sign, digits with an optional point, an optional exponent, and the names of
infinity and of the undefined value in any case.
-/
namespace Worksheet.Number

def digitsValue (cs : List Char) : Nat := Nat.ofDigitChars 10 cs 0

/-- What follows the digits of a numeral: nothing, or an exponent with at least one digit. -/
def exponentPart : List Char → Option Int
  | [] => some 0
  | c :: rest =>
    if c = 'e' ∨ c = 'E' then
      let (negative, ds) : Bool × List Char :=
        match rest with
        | '-' :: ds => (true, ds)
        | '+' :: ds => (false, ds)
        | ds => (false, ds)
      if ds ≠ [] ∧ ds.all Char.isDigit then
        some (if negative then -(digitsValue ds : Int) else digitsValue ds)
      else none
    else none

/-- An unsigned numeral: digits on at least one side of an optional point, then an exponent. -/
def numeral (cs : List Char) : Option Decimal :=
  let whole := cs.takeWhile Char.isDigit
  let (fraction, rest) : List Char × List Char :=
    match cs.dropWhile Char.isDigit with
    | '.' :: r => (r.takeWhile Char.isDigit, r.dropWhile Char.isDigit)
    | r => ([], r)
  if whole ++ fraction = [] then none
  else (exponentPart rest).map fun e => ⟨digitsValue (whole ++ fraction), e - fraction.length⟩

def unsigned (cs : List Char) : Option Nat :=
  match numeral cs with
  | some d => some d.nearest
  | none =>
    let lower := cs.map Char.toLower
    if lower = "inf".toList ∨ lower = "infinity".toList then some infinity
    else if lower = "nan".toList then some notANumber
    else none

def read : List Char → Option Float
  | '-' :: cs => (unsigned cs).map (ofCode true)
  | '+' :: cs => (unsigned cs).map (ofCode false)
  | cs => (unsigned cs).map (ofCode false)

/-- The number that a text denotes, if it denotes a finite one. -/
def readFinite (cs : List Char) : Option Float := (read cs).filter isFinite

def Decimal.positional (d : Decimal) : List Char :=
  let ds := Nat.toDigits 10 d.digits
  let places := (-d.exponent).toNat
  if places = 0 then ds ++ List.replicate d.exponent.toNat '0'
  else if places < ds.length then ds.take (ds.length - places) ++ '.' :: ds.drop (ds.length - places)
  else '0' :: '.' :: (List.replicate (places - ds.length) '0' ++ ds)

def magnitude (c : Nat) : List Char :=
  if c = infinity then "inf".toList else (shortest c).positional

def text (x : Float) : List Char :=
  if infinity < code x then "NaN".toList
  else if isNegative x then '-' :: magnitude (code x)
  else magnitude (code x)

def toText (x : Float) : String := String.ofList (text x)

end Worksheet.Number
