import Worksheet.Cell.Name
import Worksheet.Formula.Basic
import Worksheet.Pattern.Basic

set_option autoImplicit false

/-!
# Rules of a sheet

How names are folded and which are accepted, and the version that a saved sheet has to have.
-/
namespace Worksheet

inductive NameCase where
  | preserve
  | upper
  | lower
deriving DecidableEq, Repr

def NameCase.apply : NameCase → String → String
  | preserve, s => s
  | upper, s => s.toUpper
  | lower, s => s.toLower

structure Rules where
  version : String
  letterCase : NameCase
  pattern : Option Pattern.Regex
  maxLength : Option Nat

namespace Rules

/-- All names are accepted as they are written. -/
def standard : Rules := ⟨"default", .preserve, none, none⟩

def normalize (r : Rules) (name : String) : String := r.letterCase.apply name

/-- The rules accept a normalized name. Its length counts in bytes. -/
def accepts (r : Rules) (name : String) : Bool :=
  (match r.maxLength with
    | some n => decide (name.utf8ByteSize ≤ n)
    | none => true) &&
  (match r.pattern with
    | some p => p.occursIn name
    | none => true)

def acceptsCell (r : Rules) (name : String) : Bool := Cell.isCellName name && r.accepts name

/-- Formulas name cells, normalized as the names of cells are. -/
def naming (r : Rules) : Naming := ⟨r.normalize, r.acceptsCell⟩

end Rules
end Worksheet
