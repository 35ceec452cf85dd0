set_option autoImplicit false

/-!
# Paths

The parts of a path stand between slashes. The last part that names something is the file name, and what
follows its last dot is its extension; a name that only starts with a dot has none.
-/
namespace Worksheet.Path

def parts (path : String) : List (List Char) := path.toList.splitOn '/'

def here : List Char := ['.']

def parent : List Char := ['.', '.']

def fileName? (path : String) : Option (List Char) :=
  match ((parts path).filter fun part => part ≠ [] ∧ part ≠ here).getLast? with
  | some name => if name = parent then none else some name
  | none => none

/-- The part of a file name after its last dot, unless nothing stands before that dot. -/
def extensionOf? (name : List Char) : Option (List Char) :=
  match name.reverse.dropWhile (· ≠ '.') with
  | _ :: _ :: _ => some (name.reverse.takeWhile (· ≠ '.')).reverse
  | _ => none

def extension? (path : String) : Option (List Char) := (fileName? path).bind extensionOf?

end Worksheet.Path
