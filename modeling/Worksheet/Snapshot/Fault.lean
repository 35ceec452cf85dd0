import Worksheet.Markup.Reader

set_option autoImplicit false

/-!
# Faults of saved sheets

Why a text is no snapshot in the format it is read in.
-/
namespace Worksheet

inductive LineFault where
  | noColon
  | noName
  | secondVersion
  | incompleteCell
deriving DecidableEq, Repr

def LineFault.message : LineFault → String
  | .noColon => "Expected 'NAME: CONTENTS' format"
  | .noName => "Missing cell name"
  | .secondVersion => "Duplicate @version line"
  | .incompleteCell => "<cell> needs both <name> and <contents>"

inductive DecodeError where
  | markup (fault : Markup.Fault)
  | atLine (number : Nat) (fault : LineFault)
  | noVersion
deriving DecidableEq, Repr

def DecodeError.message : DecodeError → String
  | .markup fault => "XML error: " ++ fault.message
  | .atLine number fault => s!"Parse error at line {number}: {fault.message}"
  | .noVersion => "Snapshot has no version tag"

def DecodeError.causes (e : DecodeError) : List String :=
  e.message :: match e with
    | .markup fault => fault.causes
    | _ => []

end Worksheet
