import Worksheet.Formula.Token

set_option autoImplicit false

/-!
# Why a text is no formula, and why a formula has no value
-/
namespace Worksheet.Formula

inductive Fault where
  | empty
  | badToken (text : String)
  | badStart (found : String)
  | badEnd (found : String)
  /-- The closing parenthesis at this position, counted from zero, closes nothing. -/
  | strayClose (position : Nat)
  | unbalanced (opened closed : Nat)
  | wantsOperand (after found : String)
  | wantsOperator (after found : String)
  | badVariable (written normalized : String)
  | refusedVariable (written normalized : String)
deriving DecidableEq, Repr

def Fault.message : Fault → String
  | .empty => "The formula is empty; it needs at least one token"
  | .badToken text => s!"{text} is not a valid token"
  | .badStart found =>
    s!"The first token must be a number, variable, or opening parenthesis, found {found}"
  | .badEnd found =>
    s!"The last token must be a number, variable, or closing parenthesis, found {found}"
  | .strayClose position =>
    s!"Closing parenthesis at token {position} has no matching opening parenthesis"
  | .unbalanced opened closed =>
    s!"{opened} opening parentheses but {closed} closing parentheses"
  | .wantsOperand after found =>
    s!"{found} follows {after}; expected a number, variable, or opening parenthesis"
  | .wantsOperator after found =>
    s!"{found} follows {after}; expected an operator or closing parenthesis"
  | .badVariable written normalized =>
    s!"After normalizing {written} to {normalized}, it is not a valid variable"
  | .refusedVariable written normalized =>
    s!"Variable {written} (normalized {normalized}) was rejected by the validator"

inductive EvalError where
  | undefinedVariable (name : String)
  | divisionByZero
deriving DecidableEq, Repr

def EvalError.message : EvalError → String
  | .undefinedVariable name => s!"The variable {name} is undefined."
  | .divisionByZero => "Division by 0"

end Worksheet.Formula
