import Worksheet.Formula.Basic
import Worksheet.Text.Basic

set_option autoImplicit false

/-!
# Contents and values

What a cell was given, read from raw text, and what it evaluates to.
-/
namespace Worksheet

inductive Content where
  | number (x : Float)
  | text (s : String)
  | formula (f : Formula)

inductive Value where
  | number (x : Float)
  | text (s : String)
  | error (e : Formula.EvalError)

namespace Content

/-- Finite numbers with blanks around them are numbers, a text that starts with an equals sign is a
formula, and everything else is text as it stands. -/
def classify (naming : Naming) (raw : String) : Except Formula.Fault Content :=
  match Number.readFinite (Text.trimList raw.toList) with
  | some x => .ok (.number x)
  | none =>
    match raw.toList with
    | '=' :: rest => (Formula.parse naming (String.ofList rest)).map .formula
    | _ => .ok (.text raw)

def empty : Content := .text ""

def isEmpty : Content → Bool
  | text s => s.isEmpty
  | _ => false

def formula? : Content → Option Formula
  | formula f => some f
  | _ => none

def vars (c : Content) : List String := (c.formula?.map Formula.vars).getD []

def input : Content → String
  | number x => Number.toText x
  | text s => s
  | formula f => "=" ++ f.text

instance : BEq Content where
  beq
    | number x, number y => x == y
    | text s, text t => s == t
    | formula f, formula g => f == g
    | _, _ => false

end Content

namespace Value

def empty : Value := .text ""

def number? : Value → Option Float
  | number x => some x
  | _ => none

def isError : Value → Bool
  | error _ => true
  | _ => false

def display : Value → String
  | number x => Number.toText x
  | text s => s
  | error e => "#ERR: " ++ e.message

end Value
end Worksheet
