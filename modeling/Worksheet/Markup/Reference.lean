import Worksheet.Text.Basic
import Worksheet.Text.Quoted

set_option autoImplicit false

/-!
# References

In markup text an ampersand starts a reference, which a semicolon ends: a name for one of the five
characters that markup uses itself, or the number of any character but null. Faults tell byte positions.
-/
namespace Worksheet.Markup
open Worksheet.Text (bytes)

/-- The character whose number is the first byte of a character. -/
def leadingByte (c : Char) : Char :=
  Char.ofNat (((String.utf8EncodeChar c).head?.map UInt8.toNat).getD 0)

inductive ReferenceFault where
  | unterminated (start stop : Nat)
  | unknown (start stop : Nat) (name : String)
  | null (start stop : Nat)
  | longHexadecimal
  | longDecimal
  | badHexadecimal (digit : Char)
  | badDecimal (digit : Char)
  | badCodePoint (code : Nat)
deriving DecidableEq, Repr

def ReferenceFault.message : ReferenceFault → String
  | .unterminated start stop =>
    s!"Error while escaping character at range {start}..{stop}: Cannot find ';' after '&'"
  | .unknown start stop name =>
    s!"Error while escaping character at range {start}..{stop}: Unrecognized escape symbol: " ++
      Text.quoted name
  | .null start stop =>
    s!"Error while escaping character at range {start}..{stop}: Null character entity not allowed"
  | .longHexadecimal => "Cannot convert hexadecimal to utf8"
  | .longDecimal => "Cannot convert decimal to utf8"
  | .badHexadecimal digit => s!"'{digit}' is not a valid hexadecimal character"
  | .badDecimal digit => s!"'{digit}' is not a valid decimal character"
  | .badCodePoint code => s!"'{code}' is not a valid codepoint"

def decimalDigit? (c : Char) : Option Nat :=
  if c.isDigit then some (c.toNat - '0'.toNat) else none

def hexadecimalDigit? (c : Char) : Option Nat :=
  if c.isDigit then some (c.toNat - '0'.toNat)
  else if 'a' ≤ c ∧ c ≤ 'f' then some (c.toNat - 'a'.toNat + 10)
  else if 'A' ≤ c ∧ c ≤ 'F' then some (c.toNat - 'A'.toNat + 10)
  else none

/-- The number that digits write in a base; no digits write zero. -/
def number (base : Nat) (digit? : Char → Option Nat) (bad : Char → ReferenceFault)
    (digits : List Char) : Except ReferenceFault Nat :=
  digits.foldlM (fun n c =>
    match digit? c with
    | some d => .ok (base * n + d)
    | none => .error (bad (leadingByte c))) 0

/-- The number in a reference by number: decimal in up to seven bytes, or after an `x` hexadecimal in
up to six. -/
def referenceNumber : List Char → Except ReferenceFault Nat
  | 'x' :: digits =>
    if 6 < bytes digits then .error .longHexadecimal
    else number 16 hexadecimalDigit? .badHexadecimal digits
  | digits =>
    if 7 < bytes digits then .error .longDecimal
    else number 10 decimalDigit? .badDecimal digits

def named? (name : List Char) : Option Char :=
  if name = "lt".toList then some '<'
  else if name = "gt".toList then some '>'
  else if name = "amp".toList then some '&'
  else if name = "apos".toList then some '\''
  else if name = "quot".toList then some '"'
  else none

/-- The character that a reference from byte `start` to its semicolon at byte `stop` stands for. -/
def referent (start stop : Nat) : List Char → Except ReferenceFault Char
  | '#' :: digits =>
    match referenceNumber digits with
    | .error fault => .error fault
    | .ok 0 => .error (.null start stop)
    | .ok code => if code.isValidChar then .ok (Char.ofNat code) else .error (.badCodePoint code)
  | name =>
    match named? name with
    | some c => .ok c
    | none => .error (.unknown (start + 1) stop (String.ofList name))

def endsReference (c : Char) : Bool := c == '&' || c == ';'

/-- Replace the references in the rest of a text of `size` bytes that starts at byte `offset`. -/
def unescapeFrom (size offset : Nat) (cs : List Char) : Except ReferenceFault (List Char) :=
  match cs with
  | [] => .ok []
  | c :: cs =>
    if c = '&' then
      let body := cs.takeWhile (!endsReference ·)
      if cs[body.length]? = some ';' then
        let stop := offset + 1 + bytes body
        match referent offset stop body with
        | .error fault => .error fault
        | .ok c => (unescapeFrom size (stop + 1) (cs.drop (body.length + 1))).map (c :: ·)
      else .error (.unterminated offset size)
    else (unescapeFrom size (offset + c.utf8Size) cs).map (c :: ·)
termination_by cs.length
decreasing_by all_goals (simp only [List.length_cons, List.length_drop]; omega)

def unescape (cs : List Char) : Except ReferenceFault (List Char) := unescapeFrom (bytes cs) 0 cs

/-- How a character is written so that markup keeps it. -/
def escapeChar : Char → List Char
  | '&' => "&amp;".toList
  | '<' => "&lt;".toList
  | '>' => "&gt;".toList
  | '"' => "&quot;".toList
  | '\'' => "&apos;".toList
  | '\r' => "&#13;".toList
  | c => [c]

def escape (cs : List Char) : List Char := cs.flatMap escapeChar

theorem unescapeFrom_cons {c : Char} (h : c ≠ '&') (size offset : Nat) (cs : List Char) :
    unescapeFrom size offset (c :: cs) =
      (unescapeFrom size (offset + c.utf8Size) cs).map (c :: ·) := by
  rw [unescapeFrom, if_neg h]

theorem unescapeFrom_reference {body : List Char} {c : Char}
    (h : ∀ x ∈ body, (!endsReference x) = true) (size offset : Nat) (cs : List Char)
    (hc : referent offset (offset + 1 + bytes body) body = .ok c) :
    unescapeFrom size offset ('&' :: (body ++ ';' :: cs)) =
      (unescapeFrom size (offset + 1 + bytes body + 1) cs).map (c :: ·) := by
  have cut : (body ++ ';' :: cs).takeWhile (!endsReference ·) = body := by
    rw [List.takeWhile_append_of_pos h]
    simp [endsReference]
  rw [unescapeFrom, if_pos rfl]
  simp [cut, hc]

theorem unescapeFrom_escape (size offset : Nat) (cs : List Char) :
    unescapeFrom size offset (escape cs) = .ok cs := by
  induction cs generalizing offset with
  | nil => simp [escape, unescapeFrom]
  | cons c cs ih =>
    have named (body : List Char) (h : body.all (!endsReference ·) = true)
        (hc : ∀ start stop, referent start stop body = .ok c) :
        unescapeFrom size offset ('&' :: (body ++ ';' :: escape cs)) = .ok (c :: cs) := by
      rw [unescapeFrom_reference (List.all_eq_true.1 h) size offset _ (hc _ _), ih]
      rfl
    change unescapeFrom size offset (escapeChar c ++ escape cs) = _
    unfold escapeChar
    split
    · exact named "amp".toList rfl fun _ _ => rfl
    · exact named "lt".toList rfl fun _ _ => rfl
    · exact named "gt".toList rfl fun _ _ => rfl
    · exact named "quot".toList rfl fun _ _ => rfl
    · exact named "apos".toList rfl fun _ _ => rfl
    · exact named "#13".toList rfl fun _ _ => rfl
    · rename_i h _ _ _ _ _
      rw [List.singleton_append, unescapeFrom_cons h, ih]
      rfl

theorem unescape_escape (cs : List Char) : unescape (escape cs) = .ok cs :=
  unescapeFrom_escape _ _ cs

end Worksheet.Markup
