import Worksheet.File.Path
import Worksheet.Snapshot.Lines
import Worksheet.Snapshot.Xml

set_option autoImplicit false

/-!
# Formats of saved sheets

Files with the extension `xml`, in any letter case, hold the XML format; all others hold lines.
-/
namespace Worksheet

inductive FileFormat where
  | lines
  | xml
deriving DecidableEq, Repr

namespace FileFormat

def ofPath (path : String) : FileFormat :=
  if (Path.extension? path).map (·.map Char.toLower) = some "xml".toList then .xml else .lines

def decode : FileFormat → String → Except DecodeError Snapshot
  | lines => Lines.decode
  | xml => Xml.decode

def decodeVersion : FileFormat → String → Except DecodeError String
  | lines => Lines.decodeVersion
  | xml => Xml.decodeVersion

def encode : FileFormat → Snapshot → String
  | lines => Lines.encode
  | xml => Xml.encode

end FileFormat
end Worksheet
