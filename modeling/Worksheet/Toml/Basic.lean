set_option autoImplicit false

/-!
# Configuration documents

The part of TOML that a configuration can use. A document is a table of entries; tables are built up by
headers and by dotted keys, and the rules say which of these may meet. A value is a string, an
integer, the empty array, or an inline table of at most one entry.
-/
namespace Worksheet.Toml

inductive Value where
  | string (s : String)
  | integer (n : Int)
  | emptyArray
  | inline (entry : Option (String × Value))

/-- A statement of a document: the header of a table, or a value for a key in the current table. -/
inductive Statement where
  | header (path : List String)
  | assign (path : List String) (value : Value)

/-- What a key stands for. A table is implicit until a header names it, and dotted when a dotted key
made it. -/
inductive Node where
  | leaf (value : Value)
  | table (implicit dotted : Bool) (entries : List (String × Node))

abbrev Entries := List (String × Node)

def Entries.replace (es : Entries) (key : String) (node : Node) : Entries :=
  es.map fun e => if e.1 = key then (key, node) else e

/-- Change the table at a path, and make the tables on the way. A dotted path cannot go through a table
that has a header; `change` is told whether the table is dotted. -/
def update (dotted : Bool) (change : Bool → Entries → Option Entries) :
    List String → Bool → Entries → Option Entries
  | [], isDotted, es => change isDotted es
  | key :: path, _, es =>
    match es.lookup key with
    | none =>
      (update dotted change path dotted []).map fun inner => es ++ [(key, .table true dotted inner)]
    | some (.leaf _) => none
    | some (.table implicit isDotted inner) =>
      if dotted && !implicit then none
      else (update dotted change path isDotted inner).map fun inner =>
        es.replace key (.table implicit isDotted inner)

/-- Give the table of a header its entry. A table that has a header, or that a dotted key made, cannot
get another one. -/
def declare (key : String) (es : Entries) : Option Entries :=
  match es.lookup key with
  | none => some (es ++ [(key, .table false false [])])
  | some (.table true false inner) => some (es.replace key (.table false false inner))
  | some _ => none

/-- Give a key its value. A key has one value, and a table is extended in one way only. -/
def define (path : List String) (value : Value) (es : Entries) : Option Entries :=
  update true (fun isDotted es =>
    let key := path.getLastD ""
    if isDotted == path.dropLast.isEmpty then none
    else if (es.lookup key).isSome then none
    else some (es ++ [(key, .leaf value)])) path.dropLast false es

/-- The entries of a document and the path of the current table, after one more statement. -/
def follow (state : List String × Entries) : Statement → Option (List String × Entries)
  | .header path =>
    (update false (fun _ => declare (path.getLastD "")) path.dropLast false state.2).map fun es =>
      (path, es)
  | .assign path value =>
    (update false (fun _ => define path value) state.1 false state.2).map fun es => (state.1, es)

def build (statements : List Statement) : Option Entries :=
  (statements.foldlM follow ([], [])).map Prod.snd

end Worksheet.Toml
