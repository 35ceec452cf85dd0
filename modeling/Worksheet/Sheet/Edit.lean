import Worksheet.Sheet.Basic

set_option autoImplicit false

/-!
# Edits

An edit gives a cell its contents and recalculates the cell and everything that depends on it. It is
refused, and changes nothing, when the name or the formula is bad or the edit would close a loop.
-/
namespace Worksheet.Sheet

/-- The dependents of a key as they would be if the formula in `name` named `vars`. -/
def prospective (s : Sheet) (name : String) (vars : List String) (key : String) :
    List String :=
  let others := (s.graph.dependentsOf key).filter (· != name)
  if vars.contains key then name :: others else others

def prospectiveOrder (s : Sheet) (name : String) (vars : List String) :
    Except (Loop String) (List String) :=
  recalculationOrder (s.prospective name vars) (name :: s.graph.dependees.keys) name

def evaluate (s : Sheet) : Content → Value
  | .number x => .number x
  | .text t => .text t
  | .formula f =>
    match f.value s.numberOf with
    | .ok x => .number x
    | .error e => .error e

def recalculateCell (s : Sheet) (name : String) : Sheet :=
  match s.cells.get? name with
  | none => s
  | some cell =>
    { s with cells := s.cells.insert name ⟨cell.content, s.evaluate cell.content⟩ }

def recalculate (s : Sheet) (names : List String) : Sheet := names.foldl recalculateCell s

/-- Give a cell its content and its edges, without a value yet. Empty content removes the cell. -/
def commit (s : Sheet) (name : String) (content : Content) : Sheet :=
  { s with
    cells := if content.isEmpty then s.cells.erase name
      else s.cells.insert name ⟨content, .empty⟩
    graph := s.graph.replaceDependees name content.vars
    changed := true }

/-- A step on a sheet that can be refused. What it did before it is refused is not undone. -/
abbrev Step := ExceptT EditError (StateM Sheet)

def setContents (name raw : String) : Step (List String) := do
  let s ← get
  let name ← MonadExcept.ofExcept (s.cellName name)
  let content ← MonadExcept.ofExcept ((Content.classify s.rules.naming raw).mapError .formula)
  let order ← MonadExcept.ofExcept
    ((s.prospectiveOrder name content.vars).mapError fun loop => .circular name loop.path)
  modify fun s => s.commit name content
  modify fun s => s.recalculate order
  return order

/-- What an edit returns, and the sheet that it leaves. -/
def edit (s : Sheet) (name raw : String) : Except EditError (List String) × Sheet :=
  (setContents name raw).run s

/-- The sheet after an edit that is not refused, with the recalculated cells in their order. -/
def set (s : Sheet) (name raw : String) : Except EditError (Sheet × List String) :=
  (s.edit name raw).1.map fun order => ((s.edit name raw).2, order)

def orderFrom (s : Sheet) (name : String) : Except EditError (List String) :=
  match s.cellName name with
  | .error e => .error e
  | .ok name =>
    match s.graph.orderFrom name with
    | .ok order => .ok order
    | .error loop => .error (.circular name loop.path)

end Worksheet.Sheet
