import Worksheet.File.Disk
import Worksheet.Sheet.Edit
import Worksheet.Snapshot.Format

set_option autoImplicit false

/-!
# Saved sheets

A sheet is saved as a snapshot and loaded by setting the cells of one in a new sheet, in their order.
-/
namespace Worksheet

inductive LoadError where
  | file (e : FileError)
  | decode (e : DecodeError)
  | wrongVersion (expected found : String)
  | badRecord (name contents : String) (e : EditError)
deriving DecidableEq

def EditError.causes (e : EditError) : List String :=
  e.message :: match e with
    | .formula fault => [fault.message]
    | _ => []

def LoadError.message : LoadError → String
  | .file e => "IO error: " ++ e.message
  | .decode e => e.message
  | .wrongVersion expected found =>
    s!"Version of the saved spreadsheet, {Text.quoted found}, does not match {Text.quoted expected}"
  | .badRecord name contents e => s!"Cannot restore {name} = {Text.quoted contents}: {e.message}"

def LoadError.causes (e : LoadError) : List String :=
  match e with
  | .file inner => inner.causes
  | .decode inner => inner.causes
  | .wrongVersion _ _ => [e.message]
  | .badRecord _ _ inner => e.message :: inner.causes

namespace Sheet

def snapshot (s : Sheet) : Snapshot :=
  ⟨s.version, s.names.map fun name => ⟨name, (s.contentOf name).input⟩⟩

def restore (s : Sheet) (r : Record) : Except LoadError Sheet :=
  match s.set r.name r.contents with
  | .ok (s, _) => .ok s
  | .error e => .error (.badRecord r.name r.contents e)

/-- The sheet that a snapshot describes. Its version has to be the one of the rules. -/
def ofSnapshot (rules : Rules) (snapshot : Snapshot) : Except LoadError Sheet :=
  if snapshot.version = rules.version then
    (snapshot.records.foldlM restore (new rules)).map fun s => { s with changed := false }
  else .error (.wrongVersion rules.version snapshot.version)

def ofText (format : FileFormat) (rules : Rules) (text : String) : Except LoadError Sheet :=
  match format.decode text with
  | .ok snapshot => ofSnapshot rules snapshot
  | .error e => .error (.decode e)

variable {m : Type → Type} [Monad m]

def load (disk : Disk m) (path : String) (rules : Rules) : m (Except LoadError Sheet) := do
  match ← disk.readText path with
  | .ok text => return ofText (.ofPath path) rules text
  | .error e => return .error (.file e)

def savedVersion (disk : Disk m) (path : String) : m (Except LoadError String) := do
  match ← disk.readText path with
  | .ok text =>
    match (FileFormat.ofPath path).decodeVersion text with
    | .ok version => return .ok version
    | .error e => return .error (.decode e)
  | .error e => return .error (.file e)

def save (disk : Disk m) (path : String) (s : Sheet) : m (Except FileError Sheet) := do
  match ← disk.write path ((FileFormat.ofPath path).encode s.snapshot) with
  | .ok _ => return .ok { s with changed := false }
  | .error e => return .error e

end Sheet
end Worksheet
