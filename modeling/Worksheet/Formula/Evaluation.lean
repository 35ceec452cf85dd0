import Worksheet.Formula.Fault

set_option autoImplicit false

/-!
# Evaluation with two stacks

Operands wait on one stack, operators and open parentheses on the other. An operator first applies
what is pending and binds at least as tightly; a closing parenthesis applies everything back to its
opening one; the end of the tokens applies the rest. The operand that arrived first is on the left.
-/
namespace Worksheet.Formula

def Op.apply (o : Op) (left right : Float) : Except EvalError Float :=
  match o with
  | .add => .ok (left + right)
  | .sub => .ok (left - right)
  | .mul => .ok (left * right)
  | .div => if right == 0.0 then .error .divisionByZero else .ok (left / right)

inductive Pending where
  | paren
  | apply (o : Op)
deriving DecidableEq

structure Stacks where
  operands : List Float
  pending : List Pending

section combined

variable {ε : Type} (combine : Op → List Float → Except ε (List Float))

/-- Apply the pending operators that bind at least as tightly as `precedence`. -/
def settle (precedence : Nat) (operands : List Float) : List Pending → Except ε Stacks
  | .apply o :: pending =>
    if o.precedence < precedence then .ok ⟨operands, .apply o :: pending⟩
    else do settle precedence (← combine o operands) pending
  | pending => .ok ⟨operands, pending⟩

/-- Apply the pending operators back to the last open parenthesis, and drop that. -/
def closeParen (operands : List Float) : List Pending → Except ε Stacks
  | .apply o :: pending => do closeParen (← combine o operands) pending
  | .paren :: pending => .ok ⟨operands, pending⟩
  | [] => .ok ⟨operands, []⟩

def drain (operands : List Float) : List Pending → Except ε (List Float)
  | .apply o :: pending => do drain (← combine o operands) pending
  | .paren :: pending => drain operands pending
  | [] => .ok operands

def advance (lookup : String → Except ε Float) (s : Stacks) : Token → Except ε Stacks
  | .num x => .ok ⟨x :: s.operands, s.pending⟩
  | .var name => do return ⟨(← lookup name) :: s.operands, s.pending⟩
  | .lparen => .ok ⟨s.operands, .paren :: s.pending⟩
  | .rparen => closeParen combine s.operands s.pending
  | .op o => do
    let s ← settle combine o.precedence s.operands s.pending
    return ⟨s.operands, .apply o :: s.pending⟩

/-- The operands that are left at the end, where `combine` applies an operator to the topmost ones. -/
def run (lookup : String → Except ε Float) (ts : List Token) : Except ε (List Float) := do
  let s ← ts.foldlM (advance combine lookup) ⟨[], []⟩
  drain combine s.operands s.pending

end combined

/-- Apply an operator to the two topmost operands; an operand that is missing counts as zero. -/
def reduce (o : Op) (operands : List Float) : Except EvalError (List Float) :=
  (o.apply (operands.tail.headD 0) (operands.headD 0)).map (· :: operands.tail.tail)

def resolve (lookup : String → Option Float) (name : String) : Except EvalError Float :=
  match lookup name with
  | some x => .ok x
  | none => .error (.undefinedVariable name)

def evaluate (lookup : String → Option Float) (ts : List Token) : Except EvalError Float := do
  return (← run reduce (resolve lookup) ts).headD 0

end Worksheet.Formula
