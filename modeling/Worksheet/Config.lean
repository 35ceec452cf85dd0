import Worksheet.File.Disk
import Worksheet.Pattern.Reader
import Worksheet.Pattern.Tables
import Worksheet.Rules
import Worksheet.Text.Quoted
import Worksheet.Toml.Reader

set_option autoImplicit false

/-!
# Configuration

The written form of the rules. Each setting may be left out, and there are no others. What the readers of
the two notations, of settings and of patterns, say of a text that they refuse is theirs to choose.
-/
namespace Worksheet

structure Config where
  version : String
  letterCase : NameCase
  /-- A pattern that a whole normalized name has to match. -/
  namePattern : Option String
  maxNameLength : Option Nat
deriving DecidableEq, Repr

inductive ConfigError where
  /-- The text, or that of the given file, has not the expected form. -/
  | badText (path : Option String) (complaint : String)
  | badPattern (pattern complaint : String)
  | tooLarge (path : String) (bytes : Nat)
  | file (e : FileError)
deriving DecidableEq

namespace Config

def standard : Config := ⟨Rules.standard.version, .preserve, none, none⟩

def maxBytes : Nat := 65536

def caseOfName? : String → Option NameCase
  | "preserve" => some .preserve
  | "upper" => some .upper
  | "lower" => some .lower
  | _ => none

/-- A choice is its name, or a table with that name as its one key and nothing below it. -/
def caseOfNode? : Toml.Node → Option NameCase
  | .leaf (.string s) => caseOfName? s
  | .leaf (.inline (some (s, .emptyArray))) => caseOfName? s
  | .leaf (.inline (some (s, .inline none))) => caseOfName? s
  | .table _ _ [(s, .leaf .emptyArray)] => caseOfName? s
  | .table _ _ [(s, .leaf (.inline none))] => caseOfName? s
  | .table _ _ [(s, .table _ _ [])] => caseOfName? s
  | _ => none

def set? (c : Config) (entry : String × Toml.Node) : Option Config :=
  match entry with
  | ("version", .leaf (.string s)) => some { c with version := s }
  | ("case", node) => (caseOfNode? node).map fun k => { c with letterCase := k }
  | ("name_pattern", .leaf (.string s)) => some { c with namePattern := some s }
  | ("max_name_len", .leaf (.integer n)) =>
    if 0 ≤ n then some { c with maxNameLength := some n.toNat } else none
  | _ => none

def parse? (text : String) : Option Config := do
  (← Toml.read? text).foldlM set? standard

/-- What stands for the message of the reader of settings where none is given. -/
def standIn (_ : String) : String := "TOML parse error"

def parse (text : String) (complaint : String → String := standIn) : Except ConfigError Config :=
  match parse? text with
  | some c => .ok c
  | none => .error (.badText none (complaint text))

/-- The pattern of the whole name, put together from the text of the setting. -/
def wholeName (pattern : String) : String := "^(?:" ++ pattern ++ ")$"

def rules (c : Config) (library : Pattern.Library := .basic) : Except ConfigError Rules :=
  match c.namePattern with
  | none => .ok ⟨c.version, c.letterCase, none, c.maxNameLength⟩
  | some pattern =>
    match Pattern.read? library (wholeName pattern) with
    | some regex => .ok ⟨c.version, c.letterCase, some regex, c.maxNameLength⟩
    | none => .error (.badPattern pattern (library.complaint (wholeName pattern)))

end Config

namespace ConfigError

def message : ConfigError → String
  | badText none complaint => complaint
  | badText (some path) complaint => s!"{path}: {complaint}"
  | badPattern pattern complaint => s!"Invalid name_pattern {Text.quoted pattern}: {complaint}"
  | tooLarge path bytes =>
    s!"Refusing to read {path}: file too large ({bytes} bytes, max {Config.maxBytes})"
  | file e => e.message

/-- The message under a heading, and below it that of the system. -/
def causes (e : ConfigError) : List String :=
  match e with
  | file inner => inner.causes
  | e => ["Config error: " ++ e.message]

def inFile (path : String) : ConfigError → ConfigError
  | badText none complaint => badText (some path) complaint
  | e => e

end ConfigError

def Config.load {m : Type → Type} [Monad m] (disk : Disk m) (path : String)
    (complaint : String → String := standIn) : m (Except ConfigError Config) := do
  match ← disk.info path with
  | .error e => return .error (.file e)
  | .ok info =>
    if Config.maxBytes < info.size then return .error (.tooLarge path info.size)
    else match ← disk.readText path with
      | .ok text => return (Config.parse text complaint).mapError (ConfigError.inFile path)
      | .error e => return .error (.file e)

end Worksheet
