import Worksheet.Sheet.Basic

set_option autoImplicit false

/-!
# Listings

The cells of a sheet in sheet order, each with its name, its contents in escaped form and its value.
-/
namespace Worksheet.Sheet

def listingEntry (s : Sheet) (name : String) : String :=
  name ++ "\t" ++ Text.escaped (s.contentOf name).input ++ "\t" ++ (s.valueOf name).display ++ "\n"

def listing (s : Sheet) : String := String.join (s.names.map s.listingEntry)

end Worksheet.Sheet
