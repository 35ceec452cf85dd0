import Worksheet.Number.Numeral

set_option autoImplicit false

/-!
# Tokens of a formula

Parentheses, the four binary operators, variables and numbers.
-/
namespace Worksheet.Formula

inductive Op where
  | add | sub | mul | div
deriving DecidableEq, Repr

namespace Op

def precedence : Op → Nat
  | add | sub => 1
  | mul | div => 2

def symbol : Op → Char
  | add => '+'
  | sub => '-'
  | mul => '*'
  | div => '/'

def ofSymbol? : Char → Option Op
  | '+' => some add
  | '-' => some sub
  | '*' => some mul
  | '/' => some div
  | _ => none

end Op

inductive Token where
  | lparen
  | rparen
  | op (o : Op)
  | var (name : String)
  | num (x : Float)
deriving DecidableEq

/-- What two tokens have in common when they count as equal: numbers are told apart by their text. -/
inductive Token.Key where
  | number (text : String)
  | variable (name : String)
  | symbol (c : Char)
deriving DecidableEq

instance : Hashable Token.Key where
  hash
    | .number text => mixHash (hash "number") (hash text)
    | .variable name => mixHash (hash "variable") (hash name)
    | .symbol c => hash (String.singleton c)

namespace Token

def text : Token → String
  | lparen => "("
  | rparen => ")"
  | op o => String.singleton o.symbol
  | var name => name
  | num x => Number.toText x

def key : Token → Key
  | lparen => .symbol '('
  | rparen => .symbol ')'
  | op o => .symbol o.symbol
  | var name => .variable name
  | num x => .number (Number.toText x)

def opensTerm : Token → Bool
  | lparen | var _ | num _ => true
  | rparen | op _ => false

def closesTerm : Token → Bool
  | rparen | var _ | num _ => true
  | lparen | op _ => false

end Token

def isWordStart (c : Char) : Bool := c.isAlpha || c == '_'

def isWordChar (c : Char) : Bool := c.isAlphanum || c == '_'

def isVariable (s : String) : Bool :=
  match s.toList with
  | [] => false
  | c :: cs => isWordStart c && cs.all isWordChar

end Worksheet.Formula
