set_option autoImplicit false

/-!
# Cell names

A cell name is letters and then digits, all ASCII. Sheet order goes by the column, shorter letter runs
first and case ignored, then by the row as a number; names that agree in both are ordered as texts.
-/
namespace Worksheet.Cell

def splitName? (name : String) : Option (List Char × List Char) :=
  let letters := name.toList.takeWhile Char.isAlpha
  let digits := name.toList.dropWhile Char.isAlpha
  if letters ≠ [] ∧ digits ≠ [] ∧ digits.all Char.isDigit then some (letters, digits) else none

def isCellName (name : String) : Bool := (splitName? name).isSome

/-- What sheet order compares first: letters in upper case, and digits without leading zeros. -/
def nameKey? (name : String) : Option (List Char × List Char) :=
  (splitName? name).map fun parts =>
    (parts.1.map Char.toUpper, parts.2.dropWhile (· == '0'))

/-- Shorter runs first; runs of one length as texts. -/
def compareRuns (a b : List Char) : Ordering :=
  (compare a.length b.length).then (compare a b)

/-- Sheet order. Texts that are no cell names come last, as texts. -/
def compareNames (a b : String) : Ordering :=
  match nameKey? a, nameKey? b with
  | some (la, da), some (lb, db) =>
    ((compareRuns la lb).then (compareRuns da db)).then (compare a b)
  | some _, none => .lt
  | none, some _ => .gt
  | none, none => compare a b

end Worksheet.Cell
