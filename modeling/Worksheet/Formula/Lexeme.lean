import Worksheet.Formula.Fault
import Worksheet.Text.Character

set_option autoImplicit false

/-!
# Lexemes

A formula text is cut from left to right into the longest pieces that are a run of blanks, a
parenthesis, an operator, an identifier or a numeral. Blanks separate and are dropped; a numeral has
to read as a finite number. Digits of any script belong to numerals, but only the ASCII ones read.
-/
namespace Worksheet.Formula
open Worksheet.Text

inductive Kind where
  | blank
  | lparen
  | rparen
  | op (o : Op)
  | word
  | numeral
deriving DecidableEq

/-- The digits at the start of a numeral with the point among them, and what follows. -/
def mantissa? (cs : List Char) : Option (List Char × List Char) :=
  let whole := cs.takeWhile isDecimalDigit
  match cs.dropWhile isDecimalDigit with
  | '.' :: rest =>
    let fraction := rest.takeWhile isDecimalDigit
    if whole = [] ∧ fraction = [] then none
    else some (whole ++ '.' :: fraction, rest.dropWhile isDecimalDigit)
  | rest => if whole = [] then none else some (whole, rest)

def splitSign : List Char → List Char × List Char
  | '+' :: cs => (['+'], cs)
  | '-' :: cs => (['-'], cs)
  | cs => ([], cs)

/-- The exponent at the start, empty unless it has digits, and what follows. -/
def splitExponent : List Char → List Char × List Char
  | [] => ([], [])
  | c :: cs =>
    let digits := (splitSign cs).2.takeWhile isDecimalDigit
    if (c = 'e' ∨ c = 'E') ∧ digits ≠ [] then
      (c :: ((splitSign cs).1 ++ digits), (splitSign cs).2.dropWhile isDecimalDigit)
    else ([], c :: cs)

def numeral? (cs : List Char) : Option (List Char × List Char) :=
  (mantissa? cs).map fun m => (m.1 ++ (splitExponent m.2).1, (splitExponent m.2).2)

/-- The first piece of a text with its kind, and the text after it. -/
def piece? : List Char → Option (Kind × List Char × List Char)
  | [] => none
  | c :: cs =>
    if isBlank c then some (.blank, c :: cs.takeWhile isBlank, cs.dropWhile isBlank)
    else if c = '(' then some (.lparen, [c], cs)
    else if c = ')' then some (.rparen, [c], cs)
    else match Op.ofSymbol? c with
      | some o => some (.op o, [c], cs)
      | none =>
        if isWordStart c then
          some (.word, c :: cs.takeWhile isWordChar, cs.dropWhile isWordChar)
        else (numeral? (c :: cs)).map fun (piece, rest) => (.numeral, piece, rest)

/-- The run of characters at which no piece starts. -/
def junk : List Char → List Char
  | [] => []
  | c :: cs => if (piece? (c :: cs)).isSome then [] else c :: junk cs

/-- The tokens of one piece: none for blanks, and no answer for a numeral that is no finite number. -/
def Kind.tokens? (piece : List Char) : Kind → Option (List Token)
  | blank => some []
  | lparen => some [.lparen]
  | rparen => some [.rparen]
  | op o => some [.op o]
  | word => some [.var (String.ofList piece)]
  | numeral => (Number.readFinite piece).map fun x => [.num x]

theorem mantissa?_append {cs piece rest : List Char} (h : mantissa? cs = some (piece, rest)) :
    piece ++ rest = cs ∧ piece ≠ [] := by
  have hsum := List.takeWhile_append_dropWhile (p := isDecimalDigit) (l := cs)
  simp only [mantissa?] at h
  split at h
  · rename_i r hr
    rw [hr] at hsum
    split at h
    · contradiction
    · cases h
      refine ⟨?_, by simp⟩
      rw [List.append_assoc, List.cons_append, List.takeWhile_append_dropWhile]
      exact hsum
  · split at h
    · contradiction
    · rename_i hw
      cases h
      exact ⟨hsum, hw⟩

theorem splitSign_append (cs : List Char) : (splitSign cs).1 ++ (splitSign cs).2 = cs := by
  unfold splitSign
  split <;> rfl

theorem splitExponent_append (cs : List Char) :
    (splitExponent cs).1 ++ (splitExponent cs).2 = cs := by
  cases cs with
  | nil => rfl
  | cons c cs =>
    simp only [splitExponent]
    split
    · simp [List.takeWhile_append_dropWhile, splitSign_append]
    · rfl

/-- A piece and what follows it make up the text, and a piece is never empty. -/
theorem piece?_append {cs piece rest : List Char} {k : Kind}
    (h : piece? cs = some (k, piece, rest)) : piece ++ rest = cs ∧ piece ≠ [] := by
  cases cs with
  | nil => simp [piece?] at h
  | cons c cs =>
    simp only [piece?] at h
    split at h
    · cases h; simp [List.takeWhile_append_dropWhile]
    split at h
    · cases h; simp
    split at h
    · cases h; simp
    split at h
    · cases h; simp
    split at h
    · cases h; simp [List.takeWhile_append_dropWhile]
    · simp only [numeral?, Option.map_map, Option.map_eq_some_iff, Function.comp] at h
      obtain ⟨m, hm, he⟩ := h
      cases he
      obtain ⟨h1, h2⟩ := mantissa?_append (show mantissa? (c :: cs) = some (m.1, m.2) from hm)
      refine ⟨?_, by simp [h2]⟩
      rw [List.append_assoc, splitExponent_append, h1]

theorem piece?_length {cs piece rest : List Char} {k : Kind}
    (h : piece? cs = some (k, piece, rest)) : rest.length < cs.length := by
  obtain ⟨h1, h2⟩ := piece?_append h
  have hpos := List.length_pos_iff.2 h2
  rw [← h1, List.length_append]
  omega

def lex (cs : List Char) : Except Fault (List Token) :=
  match _h : piece? cs with
  | none => if cs = [] then .ok [] else .error (.badToken (String.ofList (junk cs)))
  | some (k, piece, rest) =>
    match k.tokens? piece with
    | none => .error (.badToken (String.ofList piece))
    | some ts =>
      match lex rest with
      | .error e => .error e
      | .ok us => .ok (ts ++ us)
termination_by cs.length
decreasing_by exact piece?_length (by assumption)

def tokenize (s : String) : Except Fault (List Token) := lex s.toList

end Worksheet.Formula
