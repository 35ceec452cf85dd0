import Worksheet.Formula.Fault

set_option autoImplicit false

/-!
# Which token sequences are formulas

The check is local: the first and the last token, the balance of the parentheses, and each pair of
neighbours. The first rule that fails names the fault.
-/
namespace Worksheet.Formula

def checkEnds (ts : List Token) : Except Fault Unit :=
  match ts.head?, ts.getLast? with
  | some first, some last =>
    if !first.opensTerm then .error (.badStart first.text)
    else if !last.closesTerm then .error (.badEnd last.text)
    else .ok ()
  | _, _ => .error .empty

/-- No prefix closes more parentheses than it opens, and the whole closes all of them. -/
def checkBalance (position opened closed : Nat) : List Token → Except Fault Unit
  | [] => if opened = closed then .ok () else .error (.unbalanced opened closed)
  | .lparen :: ts => checkBalance (position + 1) (opened + 1) closed ts
  | .rparen :: ts =>
    if opened = closed then .error (.strayClose position)
    else checkBalance (position + 1) opened (closed + 1) ts
  | _ :: ts => checkBalance (position + 1) opened closed ts

/-- A token after the end of an operand: an operator or a closing parenthesis. -/
def Token.continuesTerm : Token → Bool
  | .op _ | .rparen => true
  | _ => false

def checkNeighbours : List Token → Except Fault Unit
  | t :: u :: ts =>
    if t.closesTerm then
      if u.continuesTerm then checkNeighbours (u :: ts) else .error (.wantsOperator t.text u.text)
    else
      if u.opensTerm then checkNeighbours (u :: ts) else .error (.wantsOperand t.text u.text)
  | _ => .ok ()

def check (ts : List Token) : Except Fault Unit := do
  checkEnds ts
  checkBalance 0 0 0 ts
  checkNeighbours ts

end Worksheet.Formula
