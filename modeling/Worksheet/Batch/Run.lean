import Worksheet.Batch.Arguments
import Worksheet.Batch.Listing
import Worksheet.Config
import Worksheet.Sheet.Saved

set_option autoImplicit false

/-!
# Runs

One run makes or loads a sheet, sets cells in it, lists it, and saves it if asked to. The first failure
ends the run; what was listed before it stays.
-/
namespace Worksheet.Batch

/-- What a run writes to its two outputs, and its exit code. -/
structure Outcome where
  output : String
  messages : String
  code : Nat
deriving DecidableEq, Repr

inductive Failure where
  | config (path : String) (e : ConfigError)
  | rules (e : ConfigError)
  | load (path : String) (e : LoadError)
  | set (assignment : Assignment) (e : EditError)
  | save (path : String) (e : FileError)
deriving DecidableEq

def Failure.causes : Failure → List String
  | .config path e => s!"Failed to load config {path}" :: e.causes
  | .rules e => e.causes
  | .load path e => s!"Failed to open {path}" :: e.causes
  | .set a e => s!"Cannot set {a.name} to {Text.quoted a.contents}" :: e.causes
  | .save path e => s!"Failed to save {path}" :: e.causes

def errorLine (text : String) : String := s!"Error: {text}\n"

def Failure.outcome (output : String) (failure : Failure) : Outcome :=
  ⟨output, errorLine (": ".intercalate failure.causes), 1⟩

def defaultConfig (folder : String) : String := folder ++ "/tallysheet/config.toml"

section

variable {m : Type → Type} [Monad m]

/-- The configuration file to read: the one asked for, or else the user's, if there is one. -/
def configPath (disk : Disk m) (folder : Option String) (a : Arguments) : m (Option String) := do
  match a.config, a.noConfig, folder with
  | some path, _, _ => return some path
  | none, false, some folder =>
    if ← disk.containsFile (defaultConfig folder) then return some (defaultConfig folder)
    else return none
  | none, _, _ => return none

def rules (disk : Disk m) (folder : Option String) (a : Arguments)
    (library : Pattern.Library := .basic) (complaint : String → String := Config.standIn) :
    m (Except Failure Rules) := do
  match ← configPath disk folder a with
  | none => return .ok .standard
  | some path =>
    match ← Config.load disk path complaint with
    | .error e => return .error (.config path e)
    | .ok config =>
      match config.rules library with
      | .error e => return .error (.rules e)
      | .ok rules => return .ok rules

/-- The sheet in a file, or a new one where no file is named or nothing stands there. -/
def sheet (disk : Disk m) (rules : Rules) : Option String → m (Except Failure Sheet)
  | none => return .ok (.new rules)
  | some path => do
    if ← disk.contains path then
      match ← Sheet.load disk path rules with
      | .error e => return .error (.load path e)
      | .ok sheet => return .ok sheet
    else return .ok (.new rules)

def assign (s : Sheet) (a : Assignment) : Except Failure Sheet :=
  match s.set a.name a.contents with
  | .error e => .error (.set a e)
  | .ok (s, _) => .ok s

def conclude (disk : Disk m) (s : Sheet) : Option String → m Outcome
  | none => return ⟨s.listing, "", 0⟩
  | some path => do
    match ← s.save disk path with
    | .error e => return Failure.outcome s.listing (.save path e)
    | .ok _ => return ⟨s.listing, s!"Saved to {path}\n", 0⟩

def perform (disk : Disk m) (folder : Option String) (a : Arguments)
    (library : Pattern.Library := .basic) (complaint : String → String := Config.standIn) :
    m Outcome := do
  match ← rules disk folder a library complaint with
  | .error failure => return failure.outcome ""
  | .ok rules =>
    match ← sheet disk rules a.file with
    | .error failure => return failure.outcome ""
    | .ok s =>
      match a.assignments.foldlM assign s with
      | .error failure => return failure.outcome ""
      | .ok s => conclude disk s a.output

/-- Run with the given arguments. A user's configurations are in `folder`, name patterns are those of
`library`, and `complaint` is what the reader of settings says of a text it refuses. -/
def run (disk : Disk m) (folder : Option String) (arguments : List String)
    (library : Pattern.Library := .basic) (complaint : String → String := Config.standIn) :
    m Outcome := do
  match read arguments with
  | .error e => return ⟨"", errorLine e.message ++ usage, 1⟩
  | .ok .help => return ⟨"", usage, 0⟩
  | .ok (.run a) => perform disk folder a library complaint

end
end Worksheet.Batch
