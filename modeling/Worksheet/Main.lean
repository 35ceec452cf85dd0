import Worksheet.Batch.Run

set_option autoImplicit false

/-!
# The command line

Files are those of the system, and a user's configurations are where the environment says.
-/
namespace Worksheet.Batch

def fileError : IO.Error → FileError
  | .noFileOrDirectory _ _ _ => .missing
  | .inappropriateType _ 20 _ => .notFolder
  | .inappropriateType _ 21 _ => .isFolder
  | .permissionDenied _ code text => .system s!"{text} (os error {code})"
  | .invalidArgument _ 36 _ => .longName
  | e => .system (toString e)

def attempt {α : Type} (action : IO α) : IO (Except FileError α) := do
  match ← action.toBaseIO with
  | .ok a => return .ok a
  | .error e => return .error (fileError e)

def systemDisk : Disk IO where
  info path := attempt do
    let info ← (← IO.FS.realPath path).metadata
    return ⟨info.type == .file, info.byteSize.toNat⟩
  read path := attempt (IO.FS.readBinFile path)
  write path text := attempt (IO.FS.writeBinFile path text.toUTF8)

def configFolder : IO (Option String) := do
  let chosen := (← IO.getEnv "XDG_CONFIG_HOME").filter fun folder => folder.toList.head? = some '/'
  let home := (← IO.getEnv "HOME").filter fun folder => !folder.isEmpty
  return chosen <|> home.map (· ++ "/.config")

end Worksheet.Batch

open Worksheet.Batch in
def main (arguments : List String) : IO UInt32 := do
  let outcome ← run systemDisk (← configFolder) arguments
  IO.print outcome.output
  IO.eprint outcome.messages
  return outcome.code.toUInt32
