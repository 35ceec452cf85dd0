set_option autoImplicit false

/-!
# Snapshots

What is saved of a sheet: its version, and the cells in order, each as the raw text that gives its
content again.
-/
namespace Worksheet

structure Record where
  name : String
  contents : String
deriving DecidableEq, Repr

structure Snapshot where
  version : String
  records : List Record
deriving DecidableEq, Repr

end Worksheet
