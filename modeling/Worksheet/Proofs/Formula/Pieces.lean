import Worksheet.Formula.Grammar
import Worksheet.Formula.Lexeme
import Worksheet.Proofs.Number.Numeral

set_option autoImplicit false

/-!
# Cutting a text piece by piece

The text of a token is cut off as one piece from what follows it, as long as no character of an operand
follows an operand.
-/
namespace Worksheet.Formula
open Worksheet.Text

theorem lex_nil : lex [] = .ok [] := by
  rw [lex]
  rfl

theorem lex_stuck {cs : List Char} (hp : piece? cs = none) (hne : cs ≠ []) :
    lex cs = .error (.badToken (String.ofList (junk cs))) := by
  rw [lex]
  split
  · rw [if_neg hne]
  · rename_i h
    rw [hp] at h
    cases h

theorem lex_cut {cs piece rest : List Char} {k : Kind} (hp : piece? cs = some (k, piece, rest)) :
    lex cs = match k.tokens? piece with
      | none => .error (.badToken (String.ofList piece))
      | some ts => (lex rest).map (ts ++ ·) := by
  rw [lex]
  split
  · rename_i h
    rw [hp] at h
    cases h
  · rename_i k' piece' rest' h
    rw [hp] at h
    cases h
    cases k.tokens? piece with
    | none => rfl
    | some ts => cases lex rest <;> rfl

theorem lex_piece {cs piece rest : List Char} {k : Kind} {ts us : List Token}
    (hp : piece? cs = some (k, piece, rest)) (hk : k.tokens? piece = some ts)
    (hr : lex rest = .ok us) : lex cs = .ok (ts ++ us) := by
  simp [lex_cut hp, hk, hr, Except.map]

/-- The text goes on with an operator or a closing parenthesis, if at all. -/
def Stops (cs : List Char) : Prop :=
  ∀ c, cs.head? = some c → c = ')' ∨ ∃ o : Op, c = o.symbol

section stops

theorem Stops.head_false {cs : List Char} (h : Stops cs) {p : Char → Bool}
    (hp : ∀ c ∈ ")+-*/".toList, p c = false) : ∀ c, cs.head? = some c → p c = false := by
  intro c hc
  rcases h c hc with rfl | ⟨o, rfl⟩
  · exact hp ')' (by decide)
  · exact hp o.symbol (by cases o <;> decide)

theorem Stops.splitExponent {cs : List Char} (h : Stops cs) : splitExponent cs = ([], cs) := by
  cases cs with
  | nil => rfl
  | cons c cs =>
    have hc : (c == 'e' || c == 'E') = false :=
      h.head_false (p := fun c => c == 'e' || c == 'E') (forall_mem_of_all (by decide)) c rfl
    have hne : ¬((c = 'e' ∨ c = 'E') ∧ (splitSign cs).2.takeWhile isDecimalDigit ≠ []) := by
      rintro ⟨rfl | rfl, -⟩
      · cases hc
      · cases hc
    unfold Formula.splitExponent
    dsimp only
    rw [if_neg hne]

end stops

theorem isDecimalDigit_of_isDigit {c : Char} (h : c.isDigit = true) : isDecimalDigit c = true := by
  have hcode := (isDigit_iff c).1 h
  unfold isDecimalDigit digitZeros
  rw [List.any_cons, Bool.or_eq_true]
  refine .inl ?_
  rw [Bool.and_eq_true, decide_eq_true_eq, decide_eq_true_eq]
  omega

theorem numeral?_chars (p : Number.Plain) {rest : List Char} (h : Stops rest) :
    numeral? (p.chars ++ rest) = some (p.chars, rest) := by
  have hwhole : ∀ c ∈ p.whole, isDecimalDigit c = true :=
    fun c hc => isDecimalDigit_of_isDigit (p.isDigit_whole c hc)
  have hfraction : ∀ c ∈ p.fraction, isDecimalDigit c = true :=
    fun c hc => isDecimalDigit_of_isDigit (p.isDigit_fraction c hc)
  have hrest : ∀ c, rest.head? = some c → isDecimalDigit c = false :=
    h.head_false (forall_mem_of_all (by decide))
  have hmantissa : mantissa? (p.chars ++ rest) = some (p.chars, rest) := by
    unfold mantissa? Number.Plain.chars
    by_cases hf : p.fraction = []
    · have hpoint : ∀ c, rest.head? = some c → (c == '.') = false :=
        h.head_false (forall_mem_of_all (by decide))
      simp only [hf, ↓reduceIte, List.append_nil, takeWhile_run hwhole hrest,
        dropWhile_run hwhole hrest]
      split
      · rename_i rest'
        cases hpoint '.' rfl
      · rw [if_neg p.whole_ne_nil]
    · have hpoint : ∀ c, ('.' :: (p.fraction ++ rest)).head? = some c →
          isDecimalDigit c = false := by
        intro c hc
        obtain rfl := Option.some.inj hc
        decide
      have hne : ¬(p.whole = [] ∧ p.fraction = []) := fun hnil => hf hnil.2
      rw [if_neg hf, List.append_assoc, List.cons_append]
      simp only [takeWhile_run hwhole hpoint, dropWhile_run hwhole hpoint,
        takeWhile_run hfraction hrest, dropWhile_run hfraction hrest, hne, ↓reduceIte]
  unfold numeral?
  rw [hmantissa, Option.map_some, h.splitExponent, List.append_nil]

theorem isWordChar_code {c : Char} (h : isWordChar c = true) :
    (48 ≤ c.toNat ∧ c.toNat ≤ 57) ∨ (65 ≤ c.toNat ∧ c.toNat ≤ 122) := by
  unfold isWordChar Char.isAlphanum at h
  rw [Bool.or_eq_true, Bool.or_eq_true, isAlpha_iff, isDigit_iff, beq_iff_eq] at h
  rcases h with (h | h) | rfl
  · omega
  · omega
  · decide

theorem isBlank_of_isWordChar {c : Char} (h : isWordChar c = true) : isBlank c = false := by
  have hcode := isWordChar_code h
  exact isBlank_of_ascii (by omega)

theorem piece?_of_isWordChar {c : Char} (h : isWordChar c = true) (cs : List Char) :
    piece? (c :: cs) =
      if isWordStart c then some (.word, c :: cs.takeWhile isWordChar, cs.dropWhile isWordChar)
      else (numeral? (c :: cs)).map fun (piece, rest) => (.numeral, piece, rest) := by
  have hcode := isWordChar_code h
  have hblank := isBlank_of_isWordChar h
  have hne {d : Char} (hd : d.toNat < 48) : c ≠ d := by
    rintro rfl
    omega
  have hsymbol : Op.ofSymbol? c = none := by
    unfold Op.ofSymbol?
    split
    · exact absurd rfl (hne (by decide))
    · exact absurd rfl (hne (by decide))
    · exact absurd rfl (hne (by decide))
    · exact absurd rfl (hne (by decide))
    · rfl
  have hopen : c ≠ '(' := hne (by decide)
  have hclose : c ≠ ')' := hne (by decide)
  simp only [piece?, hblank, hopen, hclose, hsymbol, Bool.false_eq_true, ↓reduceIte]

theorem isWordChar_of_isWordStart {c : Char} (h : isWordStart c = true) : isWordChar c = true := by
  unfold isWordStart at h
  unfold isWordChar Char.isAlphanum
  rw [Bool.or_eq_true] at *
  exact h.imp (fun halpha => by rw [halpha, Bool.true_or]) id

theorem not_isDigit_of_isWordStart {c : Char} (h : isWordStart c = true) : c.isDigit = false := by
  refine Bool.eq_false_iff.2 fun hdigit => ?_
  have hcode := (isDigit_iff c).1 hdigit
  unfold isWordStart at h
  rw [Bool.or_eq_true, isAlpha_iff, beq_iff_eq] at h
  rcases h with halpha | rfl
  · omega
  · cases hdigit

theorem piece?_numeral (p : Number.Plain) {rest : List Char} (h : Stops rest) :
    piece? (p.chars ++ rest) = some (.numeral, p.chars, rest) := by
  have hnumeral := numeral?_chars p h
  obtain ⟨c, cs, hcs, hc⟩ := p.exists_cons
  have hword : isWordChar c = true := by
    unfold isWordChar Char.isAlphanum
    rw [hc, Bool.or_true, Bool.true_or]
  have hstart : ¬isWordStart c = true := fun hstart => by
    rw [not_isDigit_of_isWordStart hstart] at hc
    cases hc
  rw [hcs, List.cons_append] at hnumeral ⊢
  rw [piece?_of_isWordChar hword, if_neg hstart, hnumeral, Option.map_some]

theorem piece?_word {c : Char} {cs rest : List Char} (hc : isWordStart c = true)
    (hcs : ∀ d ∈ cs, isWordChar d = true) (h : Stops rest) :
    piece? (c :: (cs ++ rest)) = some (.word, c :: cs, rest) := by
  have hword := isWordChar_of_isWordStart hc
  have hrest : ∀ d, rest.head? = some d → isWordChar d = false :=
    h.head_false (forall_mem_of_all (by decide))
  rw [piece?_of_isWordChar hword, if_pos hc, takeWhile_run hcs hrest, dropWhile_run hcs hrest]

theorem piece?_symbol (o : Op) (rest : List Char) :
    piece? (o.symbol :: rest) = some (.op o, [o.symbol], rest) := by
  cases o <;> rfl

theorem Token.toList_text_op (o : Op) : (Token.op o).text.toList = [o.symbol] :=
  String.toList_singleton _

/-- A token after the end of an operand is written as one character, which tells what it is. -/
theorem Token.exists_mark {t : Token} (h : t.continuesTerm = true) :
    ∃ c, t.text.toList = [c] ∧ (c = ')' ∧ t = .rparen ∨ ∃ o : Op, c = o.symbol ∧ t = .op o) := by
  cases t with
  | rparen => exact ⟨')', rfl, .inl ⟨rfl, rfl⟩⟩
  | op o => exact ⟨o.symbol, toList_text_op o, .inr ⟨o, rfl, rfl⟩⟩
  | lparen | var _ | num _ => cases h

/-! What a token has to be like so that its text is read as that token. -/

def Token.IsWritten : Token → Prop
  | .num x => Number.isFinite x = true ∧ Number.isNegative x = false
  | .var name => isVariable name = true
  | _ => True

theorem isVariable_iff {name : String} : isVariable name = true ↔
    ∃ c cs, name.toList = c :: cs ∧ isWordStart c = true ∧ ∀ d ∈ cs, isWordChar d = true := by
  unfold isVariable
  cases name.toList with
  | nil => simp
  | cons c cs =>
    dsimp only
    rw [Bool.and_eq_true, List.all_eq_true]
    constructor
    · rintro ⟨hc, hcs⟩
      exact ⟨c, cs, rfl, hc, hcs⟩
    · rintro ⟨_, _, heq, hc, hcs⟩
      obtain ⟨rfl, rfl⟩ := List.cons.inj heq
      exact ⟨hc, hcs⟩

theorem isWordChar_of_isVariable {name : String} (h : isVariable name = true) :
    ∀ c ∈ name.toList, isWordChar c = true := by
  obtain ⟨c, cs, hname, hc, hcs⟩ := isVariable_iff.1 h
  rw [hname]
  exact List.forall_mem_cons.2 ⟨isWordChar_of_isWordStart hc, hcs⟩

theorem tokens?_numeral {x : Float} (h : Number.isFinite x = true) :
    Kind.numeral.tokens? (Number.text x) = some [.num x] := by
  change (Number.readFinite (Number.text x)).map _ = _
  rw [Number.readFinite_text h, Option.map_some]

/-- The text of a token before what may follow it is read as that token. -/
theorem lex_token {t : Token} {rest : List Char} {us : List Token} (ht : t.IsWritten)
    (hrest : t.closesTerm = true → Stops rest) (h : lex rest = .ok us) :
    lex (t.text.toList ++ rest) = .ok (t :: us) := by
  cases t with
  | lparen => exact lex_piece (k := .lparen) rfl rfl h
  | rparen => exact lex_piece (k := .rparen) rfl rfl h
  | op o =>
    rw [Token.toList_text_op]
    exact lex_piece (piece?_symbol o rest) rfl h
  | var name =>
    obtain ⟨c, cs, hname, hc, hcs⟩ := isVariable_iff.1 ht
    have hpiece := piece?_word hc hcs (hrest rfl)
    have hread : Kind.word.tokens? (c :: cs) = some [.var name] := by
      rw [← hname]
      simp [Kind.tokens?]
    have htext : (Token.var name).text.toList = c :: cs := hname
    rw [htext]
    exact lex_piece hpiece hread h
  | num x =>
    obtain ⟨hfinite, hsign⟩ := ht
    obtain ⟨p, hp⟩ := Number.exists_plain_text hfinite hsign
    have htext : (Token.num x).text.toList = p.chars := by
      rw [hp]
      exact String.toList_ofList
    have hread := tokens?_numeral hfinite
    rw [← hp] at hread
    rw [htext]
    exact lex_piece (piece?_numeral p (hrest rfl)) hread h

end Worksheet.Formula
