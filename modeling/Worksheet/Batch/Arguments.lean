import Worksheet.Text.Basic
import Worksheet.Text.Quoted

set_option autoImplicit false

/-!
# Command line arguments

Options may stand anywhere. A later output or configuration file takes the place of an earlier one, and
help is given as soon as it is asked for.
-/
namespace Worksheet.Batch

structure Assignment where
  name : String
  contents : String
deriving DecidableEq, Repr

structure Arguments where
  file : Option String
  assignments : List Assignment
  output : Option String
  config : Option String
  noConfig : Bool
deriving DecidableEq, Repr

def Arguments.initial : Arguments := ⟨none, [], none, none, false⟩

inductive Request where
  | help
  | run (arguments : Arguments)
deriving DecidableEq, Repr

inductive ArgumentError where
  | noAssignment
  | badAssignment (text : String)
  | noOutput
  | noConfig
  | unknownSwitch (text : String)
  | secondFile (text : String)
deriving DecidableEq, Repr

def ArgumentError.message : ArgumentError → String
  | .noAssignment => "--set requires NAME=CONTENTS"
  | .badAssignment text => s!"Expected NAME=CONTENTS, got {Text.quoted text}"
  | .noOutput => "--output requires a file path"
  | .noConfig => "--config requires a file path"
  | .unknownSwitch text => s!"Unknown option: {text}"
  | .secondFile text => s!"Unexpected argument: {text}"

/-- The two sides of the first equals sign; blanks around the name do not count. -/
def assignment? (text : String) : Option Assignment :=
  match text.toList.dropWhile (· ≠ '=') with
  | [] => none
  | _ :: contents =>
    some ⟨String.ofList (Text.trimList (text.toList.takeWhile (· ≠ '='))), String.ofList contents⟩

inductive Switch where
  | help
  | set
  | output
  | config
  | noConfig
  | unknown
deriving DecidableEq, Repr

/-- The switch that an argument is, unless it is a file name. -/
def switch? (text : String) : Option Switch :=
  if text = "-h" ∨ text = "--help" then some .help
  else if text = "-s" ∨ text = "--set" then some .set
  else if text = "-o" ∨ text = "--output" then some .output
  else if text = "-c" ∨ text = "--config" then some .config
  else if text = "--no-config" then some .noConfig
  else if text.toList.head? = some '-' then some .unknown
  else none

def readFrom (a : Arguments) : List String → Except ArgumentError Request
  | [] => .ok (.run a)
  | text :: rest =>
    match switch? text, rest with
    | some .help, _ => .ok .help
    | some .set, [] => .error .noAssignment
    | some .set, value :: rest =>
      match assignment? value with
      | none => .error (.badAssignment value)
      | some assignment =>
        readFrom { a with assignments := a.assignments ++ [assignment] } rest
    | some .output, [] => .error .noOutput
    | some .output, path :: rest => readFrom { a with output := some path } rest
    | some .config, [] => .error .noConfig
    | some .config, path :: rest => readFrom { a with config := some path } rest
    | some .noConfig, rest => readFrom { a with noConfig := true } rest
    | some .unknown, _ => .error (.unknownSwitch text)
    | none, rest =>
      if a.file.isSome then .error (.secondFile text) else readFrom { a with file := some text } rest

def read (arguments : List String) : Except ArgumentError Request := readFrom .initial arguments

def usage : String :=
  "Usage: tallysheet [OPTIONS] [FILE]\n\nArguments:\n" ++
  "  [FILE]                    Snapshot to open (.xml, or the line format)\n\nOptions:\n" ++
  "  -s, --set <NAME=CONTENTS> Assign a cell (can be repeated)\n" ++
  "  -o, --output <FILE>       Save the result (.xml, or the line format)\n" ++
  "  -c, --config <FILE>       Load naming rules and version from TOML\n" ++
  "  --no-config               Ignore the user config.toml\n" ++
  "  -h, --help                Print help\n"

end Worksheet.Batch
