import Worksheet.Cell.Content
import Worksheet.Graph.Order
import Worksheet.Rules
import Worksheet.Table
import Worksheet.Text.Quoted

set_option autoImplicit false

/-!
# Sheets

The non-empty cells with their values, and the graph of which formula names which cell: a pair `(v, n)`
of the graph says that the formula in `n` names `v`. A sheet remembers whether it was edited since it
was made, loaded or saved.
-/
namespace Worksheet

structure Cell where
  content : Content
  value : Value

structure Sheet where
  rules : Rules
  cells : Table String Cell
  graph : Graph String
  changed : Bool

inductive EditError where
  | invalidName (name : String)
  | formula (fault : Formula.Fault)
  | circular (cell : String) (path : List String)
deriving DecidableEq

def EditError.message : EditError → String
  | .invalidName name => s!"Invalid cell name: {Text.quoted name}"
  | .formula fault => s!"Invalid formula: {fault.message}"
  | .circular cell path =>
    s!"Circular dependency detected at {cell}: " ++ " -> ".intercalate path

namespace Sheet

def new (rules : Rules) : Sheet := ⟨rules, [], .empty, false⟩

def version (s : Sheet) : String := s.rules.version

def size (s : Sheet) : Nat := s.cells.length

def isEmpty (s : Sheet) : Bool := s.cells.isEmpty

def cellName (s : Sheet) (name : String) : Except EditError String :=
  let normalized := s.rules.normalize name
  if s.rules.acceptsCell normalized then .ok normalized else .error (.invalidName name)

def contentOf (s : Sheet) (name : String) : Content :=
  ((s.cells.get? name).map Cell.content).getD .empty

def valueOf (s : Sheet) (name : String) : Value :=
  ((s.cells.get? name).map Cell.value).getD .empty

/-- The number in a cell. Text, errors and empty cells have none. -/
def numberOf (s : Sheet) (name : String) : Option Float := (s.valueOf name).number?

def contents (s : Sheet) (name : String) : Except EditError Content :=
  (s.cellName name).map s.contentOf

def value (s : Sheet) (name : String) : Except EditError Value :=
  (s.cellName name).map s.valueOf

def names (s : Sheet) : List String :=
  s.cells.keys.mergeSort fun a b => (Cell.compareNames a b).isLE

def dependents (s : Sheet) (name : String) : Except EditError (List String) :=
  (s.cellName name).map s.graph.dependentsOf

def dependees (s : Sheet) (name : String) : Except EditError (List String) :=
  (s.cellName name).map s.graph.dependeesOf

def hasDependents (s : Sheet) (name : String) : Except EditError Bool :=
  (s.cellName name).map s.graph.hasDependents

def hasDependees (s : Sheet) (name : String) : Except EditError Bool :=
  (s.cellName name).map s.graph.hasDependees

def summary (s : Sheet) : String :=
  s!"SharedSpreadsheet(Spreadsheet \x7b version: {Text.quoted s.version}, cells: {s.size}, " ++
    s!"edges: {s.graph.size}, changed: {s.changed} \x7d)"

end Sheet

def Rules.summary (r : Rules) : String :=
  s!"SheetRules \x7b version: {Text.quoted r.version}, .. \x7d"

end Worksheet
