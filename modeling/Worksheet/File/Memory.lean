import Worksheet.File.Disk
import Worksheet.File.Path
import Worksheet.Table
import Worksheet.Text.Basic

set_option autoImplicit false

/-!
# Files in memory

A tree of folders with files in them, as a list of the names that lead to each entry from the top folder,
which is also where relative paths start.
-/
namespace Worksheet

inductive FileEntry where
  | file (bytes : ByteArray)
  | folder

/-- The names from the top folder to an entry. -/
abbrev Place := List (List Char)

structure FileTree where
  entries : Table Place FileEntry

namespace FileTree

def empty : FileTree := ⟨[]⟩

def entry? (t : FileTree) (place : Place) : Option FileEntry :=
  if place = [] then some .folder else t.entries.get? place

def insert (t : FileTree) (place : Place) (entry : FileEntry) : FileTree :=
  ⟨Table.insert t.entries place entry⟩

def maxNameSize : Nat := 255

/-- Follow the parts of a path from a place. What the last part names need not be there, but a part can
only follow a folder. -/
def follow (t : FileTree) (place : Place) : List (List Char) → Except FileError Place
  | [] => .ok place
  | part :: parts =>
    match t.entry? place with
    | none => .error .missing
    | some (.file _) => .error .notFolder
    | some .folder =>
      if part = [] ∨ part = Path.here then t.follow place parts
      else if part = Path.parent then t.follow place.dropLast parts
      else if maxNameSize < Text.bytes part then .error .longName
      else t.follow (place ++ [part]) parts

def place (t : FileTree) (path : String) : Except FileError Place :=
  if path.toList.contains '\x00' then .error .badName
  else if path.isEmpty then .error .missing
  else t.follow [] (Path.parts path)

def find (t : FileTree) (path : String) : Except FileError FileEntry :=
  match t.place path with
  | .error e => .error e
  | .ok place =>
    match t.entry? place with
    | some entry => .ok entry
    | none => .error .missing

def info (t : FileTree) (path : String) : Except FileError FileInfo :=
  match t.find path with
  | .error e => .error e
  | .ok (.file bytes) => .ok ⟨true, bytes.size⟩
  | .ok .folder => .ok ⟨false, 0⟩

def read (t : FileTree) (path : String) : Except FileError ByteArray :=
  match t.find path with
  | .error e => .error e
  | .ok (.file bytes) => .ok bytes
  | .ok .folder => .error .isFolder

/-- A path with slashes at its end names a folder, and a folder cannot be written. -/
def write (t : FileTree) (path : String) (bytes : ByteArray) : Except FileError FileTree :=
  let name := (path.toList.reverse.dropWhile (· == '/')).reverse
  match t.place (if name.isEmpty then path else String.ofList name) with
  | .error e => .error e
  | .ok place =>
    if name.length < path.length then .error .isFolder
    else match t.entry? place with
      | some .folder => .error .isFolder
      | _ => .ok (t.insert place (.file bytes))

def add (t : FileTree) (path : String) (bytes : ByteArray) : FileTree :=
  let place := (Path.parts path).filter (· ≠ [])
  let folders := (List.range place.length).foldl
    (fun t n => if (t.entry? (place.take n)).isSome then t else t.insert (place.take n) .folder) t
  folders.insert place (.file bytes)

def disk : Disk (StateM FileTree) where
  info path := return (← get).info path
  read path := return (← get).read path
  write path text := do
    match (← get).write path text.toUTF8 with
    | .ok t =>
      set t
      return .ok ()
    | .error e => return .error e

end FileTree
end Worksheet
