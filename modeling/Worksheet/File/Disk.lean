set_option autoImplicit false

/-!
# Disks

What the program needs of the place where files are kept. Paths are texts, and files are bytes that are
read as text.
-/
namespace Worksheet

inductive FileError where
  | missing
  | notFolder
  | isFolder
  | longName
  | badName
  | notText
  /-- Another failure, in the words of the system. -/
  | system (text : String)
deriving DecidableEq, Repr

def FileError.message : FileError → String
  | .missing => "No such file or directory (os error 2)"
  | .notFolder => "Not a directory (os error 20)"
  | .isFolder => "Is a directory (os error 21)"
  | .longName => "File name too long (os error 36)"
  | .badName => "file name contained an unexpected NUL byte"
  | .notText => "stream did not contain valid UTF-8"
  | .system text => text

def FileError.causes (e : FileError) : List String := ["IO error: " ++ e.message, e.message]

/-- What is known of a path without reading it: whether a file stands there, and its size in bytes. -/
structure FileInfo where
  isFile : Bool
  size : Nat
deriving DecidableEq, Repr

/-- The operations on files, in the monad in which they run. -/
structure Disk (m : Type → Type) where
  info : String → m (Except FileError FileInfo)
  read : String → m (Except FileError ByteArray)
  write : String → String → m (Except FileError Unit)

namespace Disk

variable {m : Type → Type} [Monad m]

def readText (disk : Disk m) (path : String) : m (Except FileError String) := do
  match ← disk.read path with
  | .error e => return .error e
  | .ok bytes =>
    match String.fromUTF8? bytes with
    | some text => return .ok text
    | none => return .error .notText

def contains (disk : Disk m) (path : String) : m Bool := do
  match ← disk.info path with
  | .ok _ => return true
  | .error _ => return false

def containsFile (disk : Disk m) (path : String) : m Bool := do
  match ← disk.info path with
  | .ok info => return info.isFile
  | .error _ => return false

end Disk
end Worksheet
