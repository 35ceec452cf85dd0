import Worksheet.Proofs.Formula.Canonical
import Worksheet.Proofs.Formula.Lexemes
import Worksheet.Proofs.Number.LetterCase

set_option autoImplicit false

/-!
# The letter case of formulas

A text is cut into the same pieces whatever the case of its letters. Under a naming that folds case, texts
that differ in nothing else are the same formula or have the same fault, up to the case of what it quotes.
-/
namespace Worksheet.Formula
open Worksheet.Text

/-- A fault with the texts that it quotes in small letters. -/
def Fault.lowered : Fault → Fault
  | .empty => .empty
  | .badToken text => .badToken text.toLower
  | .badStart found => .badStart found.toLower
  | .badEnd found => .badEnd found.toLower
  | .strayClose position => .strayClose position
  | .unbalanced opened closed => .unbalanced opened closed
  | .wantsOperand after found => .wantsOperand after.toLower found.toLower
  | .wantsOperator after found => .wantsOperator after.toLower found.toLower
  | .badVariable written normalized => .badVariable written.toLower normalized
  | .refusedVariable written normalized => .refusedVariable written.toLower normalized

def Token.lowered (t : Token) : Token := t.mapVar String.toLower

section characters

variable (c : Char)

theorem isDecimalDigit_toLower : isDecimalDigit c.toLower = isDecimalDigit c := by
  rcases toLower_cases c with ⟨hsame, -⟩ | ⟨hfirst, hlast, hcode⟩
  · rw [hsame]
  · have hnone {d : Char} (hd : 58 ≤ d.toNat ∧ d.toNat < 128) : isDecimalDigit d = false :=
      Bool.eq_false_iff.2 fun h => by
        have hdigit := isDecimalDigit_code h
        omega
    rw [hnone (by omega), hnone (by omega)]

theorem toLower_beq_underscore : (c.toLower == '_') = (c == '_') := by
  rw [Bool.eq_iff_iff, beq_iff_eq, beq_iff_eq, toLower_eq_iff (by decide)]

theorem isWordStart_toLower : isWordStart c.toLower = isWordStart c := by
  rw [isWordStart, isAlpha_toLower, toLower_beq_underscore, isWordStart]

theorem isWordChar_toLower : isWordChar c.toLower = isWordChar c := by
  rw [isWordChar, Char.isAlphanum, isAlpha_toLower, isDigit_toLower, toLower_beq_underscore,
    isWordChar, Char.isAlphanum]

theorem Op.ofSymbol?_toLower : ofSymbol? c.toLower = ofSymbol? c := by
  rcases toLower_cases c with ⟨hsame, -⟩ | ⟨hfirst, hlast, hcode⟩
  · rw [hsame]
  · rw [ofSymbol?_eq_none (by omega), ofSymbol?_eq_none (by omega)]

end characters

section scanning

variable (cs : List Char)

theorem mantissa?_lowered :
    mantissa? (lowered cs) = (mantissa? cs).map (Prod.map lowered lowered) := by
  simp only [mantissa?, takeWhile_lowered isDecimalDigit_toLower,
    dropWhile_lowered isDecimalDigit_toLower]
  cases cs.dropWhile isDecimalDigit with
  | nil => by_cases h : cs.takeWhile isDecimalDigit = [] <;> simp [h]
  | cons c rest =>
    by_cases hc : c = '.'
    · subst hc
      simp only [lowered_cons, show '.'.toLower = '.' from rfl, lowered_eq_nil,
        takeWhile_lowered isDecimalDigit_toLower, dropWhile_lowered isDecimalDigit_toLower]
      split <;> simp
    · have hlower : c.toLower ≠ '.' := toLower_ne (by decide) hc
      by_cases h : cs.takeWhile isDecimalDigit = [] <;> simp [h, hc, hlower]

theorem splitSign_lowered : splitSign (lowered cs) = Prod.map lowered lowered (splitSign cs) := by
  cases cs with
  | nil => rfl
  | cons c cs =>
    by_cases hplus : c = '+'
    · subst hplus
      rfl
    by_cases hminus : c = '-'
    · subst hminus
      rfl
    have hplus' : c.toLower ≠ '+' := toLower_ne (by decide) hplus
    have hminus' : c.toLower ≠ '-' := toLower_ne (by decide) hminus
    simp [splitSign, hplus, hminus, hplus', hminus']

theorem splitExponent_lowered :
    splitExponent (lowered cs) = Prod.map lowered lowered (splitExponent cs) := by
  cases cs with
  | nil => rfl
  | cons c cs =>
    simp only [lowered_cons, splitExponent, splitSign_lowered, Prod.map_fst, Prod.map_snd,
      takeWhile_lowered isDecimalDigit_toLower, dropWhile_lowered isDecimalDigit_toLower,
      Number.isMark_toLower, ne_eq, lowered_eq_nil]
    split <;> simp

theorem numeral?_lowered :
    numeral? (lowered cs) = (numeral? cs).map (Prod.map lowered lowered) := by
  rw [numeral?, mantissa?_lowered, numeral?, Option.map_map, Option.map_map]
  congr 1
  funext m
  simp [splitExponent_lowered]

/-- The same piece is cut off a text whatever the case of its letters. -/
theorem piece?_lowered : piece? (lowered cs) =
    (piece? cs).map fun (k, piece, rest) => (k, lowered piece, lowered rest) := by
  cases cs with
  | nil => rfl
  | cons c cs =>
    have hnumeral := numeral?_lowered (c :: cs)
    rw [lowered_cons] at hnumeral ⊢
    simp only [piece?, isBlank_toLower, takeWhile_lowered isBlank_toLower,
      dropWhile_lowered isBlank_toLower, toLower_eq_iff (c := c) (d := '(') (by decide),
      toLower_eq_iff (c := c) (d := ')') (by decide), Op.ofSymbol?_toLower, isWordStart_toLower,
      takeWhile_lowered isWordChar_toLower, dropWhile_lowered isWordChar_toLower, hnumeral]
    by_cases hblank : isBlank c = true
    · simp only [hblank, ↓reduceIte, Option.map_some, lowered_cons]
    by_cases hopen : c = '('
    · subst hopen
      simp [hblank]
    by_cases hclose : c = ')'
    · subst hclose
      simp [hblank]
    simp only [hblank, hopen, hclose, ↓reduceIte]
    cases Op.ofSymbol? c with
    | some o => rfl
    | none =>
      by_cases hword : isWordStart c = true
      · simp [hword]
      · simp only [hword, Bool.false_eq_true, ↓reduceIte, Option.map_map]
        rfl

theorem junk_lowered : junk (lowered cs) = lowered (junk cs) := by
  induction cs with
  | nil => rfl
  | cons c cs ih =>
    have hpiece := piece?_lowered (c :: cs)
    rw [lowered_cons] at hpiece ⊢
    simp only [junk, hpiece, ih, Option.isSome_map]
    split <;> rfl

theorem Kind.tokens?_lowered (k : Kind) (piece : List Char) :
    k.tokens? (lowered piece) = (k.tokens? piece).map (List.map Token.lowered) := by
  cases k with
  | word => simp [tokens?, Token.lowered, Token.mapVar, ofList_lowered]
  | numeral =>
    rw [tokens?, Number.readFinite_lowered, tokens?]
    cases Number.readFinite piece <;> rfl
  | blank | lparen | rparen | op _ => rfl

theorem lex_lowered : lex (lowered cs) =
    ((lex cs).map (List.map Token.lowered)).mapError Fault.lowered := by
  induction hlength : cs.length using Nat.strongRecOn generalizing cs with
  | ind n ih =>
    subst hlength
    have hpiece := piece?_lowered cs
    cases hp : piece? cs with
    | none =>
      rw [hp] at hpiece
      by_cases hne : cs = []
      · subst hne
        rw [lowered_nil, lex_nil]
        rfl
      · rw [lex_stuck hpiece (by simpa using hne), lex_stuck hp hne, junk_lowered, ofList_lowered]
        rfl
    | some found =>
      obtain ⟨k, piece, rest⟩ := found
      rw [hp] at hpiece
      rw [lex_cut hpiece, lex_cut hp, Kind.tokens?_lowered, ih _ (piece?_length hp) rest rfl,
        ofList_lowered]
      cases k.tokens? piece with
      | none => rfl
      | some ts => cases lex rest <;> simp [Except.map, Except.mapError]

end scanning

section parsing

/-- Results that agree but for their errors, and in what is kept of those. -/
theorem mapError_eq_cases {α ε δ : Type} {g : ε → δ} {x y : Except ε α}
    (h : x.mapError g = y.mapError g) :
    (∃ a, x = .ok a ∧ y = .ok a) ∨ ∃ e e', x = .error e ∧ y = .error e' ∧ g e = g e' := by
  cases x with
  | ok a =>
    cases y with
    | ok b =>
      obtain rfl : a = b := Except.ok.inj h
      exact .inl ⟨a, rfl, rfl⟩
    | error e' => cases h
  | error e =>
    cases y with
    | ok b => cases h
    | error e' => exact .inr ⟨e, e', rfl, rfl, Except.error.inj h⟩

theorem mapError_bind_congr {α β ε δ : Type} {g : ε → δ} {x y : Except ε α} {f k : α → Except ε β}
    (hxy : x.mapError g = y.mapError g) (hfk : ∀ a, (f a).mapError g = (k a).mapError g) :
    (x.bind f).mapError g = (y.bind k).mapError g := by
  rcases mapError_eq_cases hxy with ⟨a, rfl, rfl⟩ | ⟨e, e', rfl, rfl, he⟩
  · exact hfk a
  · exact congrArg Except.error he

variable (t : Token) (ts : List Token)

theorem Fault.lowered_lowered (fault : Fault) : fault.lowered.lowered = fault.lowered := by
  cases fault <;> simp [lowered, toLower_toLower_text]

theorem Token.toLower_text_lowered : t.lowered.text.toLower = t.text.toLower := by
  cases t with
  | var name => exact toLower_toLower_text name
  | lparen | rparen | op _ | num _ => rfl

theorem Token.opensTerm_lowered : t.lowered.opensTerm = t.opensTerm := by cases t <;> rfl

theorem Token.closesTerm_lowered : t.lowered.closesTerm = t.closesTerm := by cases t <;> rfl

theorem Token.continuesTerm_lowered : t.lowered.continuesTerm = t.continuesTerm := by cases t <;> rfl

theorem checkEnds_lowered :
    (checkEnds (ts.map Token.lowered)).mapError Fault.lowered = (checkEnds ts).mapError Fault.lowered := by
  simp only [checkEnds, List.head?_map, List.getLast?_map]
  cases ts.head? with
  | none => rfl
  | some first =>
    cases ts.getLast? with
    | none => rfl
    | some last =>
      simp only [Option.map_some, Token.opensTerm_lowered, Token.closesTerm_lowered]
      split
      · simp [Except.mapError, Fault.lowered, Token.toLower_text_lowered]
      split
      · simp [Except.mapError, Fault.lowered, Token.toLower_text_lowered]
      · rfl

theorem checkBalance_lowered (position opened closed : Nat) :
    checkBalance position opened closed (ts.map Token.lowered) =
      checkBalance position opened closed ts := by
  induction ts generalizing position opened closed with
  | nil => rfl
  | cons t ts ih =>
    cases t with
    | rparen =>
      simp [Token.lowered, Token.mapVar, checkBalance, ← ih]
    | lparen | op _ | var _ | num _ => exact ih ..

theorem checkNeighbours_lowered : (checkNeighbours (ts.map Token.lowered)).mapError Fault.lowered =
    (checkNeighbours ts).mapError Fault.lowered := by
  induction ts with
  | nil => rfl
  | cons t ts ih =>
    cases ts with
    | nil => rfl
    | cons u ts =>
      simp only [List.map_cons, checkNeighbours, Token.closesTerm_lowered,
        Token.continuesTerm_lowered, Token.opensTerm_lowered] at ih ⊢
      split
      · split
        · exact ih
        · simp [Except.mapError, Fault.lowered, Token.toLower_text_lowered]
      · split
        · exact ih
        · simp [Except.mapError, Fault.lowered, Token.toLower_text_lowered]

theorem check_lowered :
    (check (ts.map Token.lowered)).mapError Fault.lowered = (check ts).mapError Fault.lowered :=
  mapError_bind_congr (checkEnds_lowered ts) fun _ =>
    mapError_bind_congr (congrArg _ (checkBalance_lowered ts 0 0 0)) fun _ =>
      checkNeighbours_lowered ts

variable {naming : Naming} (hfolds : ∀ v, naming.normalize v.toLower = naming.normalize v)

include hfolds

theorem rename_lowered :
    (rename naming t.lowered).mapError Fault.lowered = (rename naming t).mapError Fault.lowered := by
  cases t with
  | var name =>
    simp only [Token.lowered, Token.mapVar, rename, hfolds]
    split
    · simp [Except.mapError, Fault.lowered, toLower_toLower_text]
    split
    · simp [Except.mapError, Fault.lowered, toLower_toLower_text]
    · rfl
  | lparen | rparen | op _ | num _ => rfl

theorem mapM_rename_lowered : ((ts.map Token.lowered).mapM (rename naming)).mapError Fault.lowered =
    (ts.mapM (rename naming)).mapError Fault.lowered := by
  induction ts with
  | nil => rfl
  | cons t ts ih =>
    rw [List.map_cons, List.mapM_cons, List.mapM_cons]
    exact mapError_bind_congr (rename_lowered t hfolds) fun _ => mapError_bind_congr ih fun _ => rfl

theorem parse_toLower (s : String) :
    (parse naming s.toLower).mapError Fault.lowered = (parse naming s).mapError Fault.lowered := by
  unfold parse tokenize
  rw [toList_toLower, lex_lowered]
  cases lex s.toList with
  | error fault => exact congrArg Except.error fault.lowered_lowered
  | ok ts =>
    change Except.mapError _ (Except.bind (check (ts.map Token.lowered)) _) =
      Except.mapError _ (Except.bind (check ts) _)
    exact mapError_bind_congr (check_lowered ts) fun _ =>
      mapError_bind_congr (mapM_rename_lowered ts hfolds) fun _ => rfl

end parsing

end Worksheet.Formula
