import Worksheet.Formula.Evaluation
import Worksheet.Formula.Grammar
import Worksheet.Formula.Lexeme

set_option autoImplicit false

/-!
# Formulas

A formula is a checked token sequence with normalized variables, together with its canonical text.
Two formulas are equal when their tokens have equal keys.
-/
namespace Worksheet

/-- How variables are written in a formula, and which of them it may name. -/
structure Naming where
  normalize : String → String
  accepts : String → Bool

def Naming.verbatim : Naming := ⟨id, fun _ => true⟩

structure Formula where
  tokens : List Formula.Token
  text : String

namespace Formula

/-- A token with its variable normalized, if that leaves an acceptable variable. -/
def rename (naming : Naming) : Token → Except Fault Token
  | .var name =>
    let normalized := naming.normalize name
    if !isVariable normalized then .error (.badVariable name normalized)
    else if !naming.accepts normalized then .error (.refusedVariable name normalized)
    else .ok (.var normalized)
  | t => .ok t

/-- The canonical text of a renamed token; the text of a number is normalized as well. -/
def canonicalPiece (naming : Naming) : Token → String
  | .num x => naming.normalize (Number.toText x)
  | t => t.text

def parse (naming : Naming) (s : String) : Except Fault Formula := do
  let written ← tokenize s
  check written
  let tokens ← written.mapM (rename naming)
  return ⟨tokens, String.join (tokens.map (canonicalPiece naming))⟩

def Token.variable? : Token → Option String
  | .var name => some name
  | _ => none

def vars (f : Formula) : List String := (f.tokens.filterMap Token.variable?).eraseDups

def keys (f : Formula) : List Token.Key := f.tokens.map Token.key

instance : BEq Formula := ⟨fun f g => decide (f.keys = g.keys)⟩

instance : Hashable Formula := ⟨fun f => hash f.keys⟩

def value (f : Formula) (lookup : String → Option Float) : Except EvalError Float :=
  evaluate lookup f.tokens

end Formula
end Worksheet
