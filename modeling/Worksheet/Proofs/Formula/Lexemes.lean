import Worksheet.Proofs.Formula.Pieces

set_option autoImplicit false

/-!
# Lexemes

What counts as a piece of a formula text, said without a reader. The piece that is cut off a text is the
longest of its beginnings that are lexemes, of whatever kind.
-/
namespace Worksheet.Formula
open Worksheet.Text

def Digits (cs : List Char) : Prop := ∀ c ∈ cs, isDecimalDigit c = true

/-- Digits, or a point with digits on at least one side of it. -/
inductive IsMantissa : List Char → Prop where
  | whole {ds : List Char} (hne : ds ≠ []) (hds : Digits ds) : IsMantissa ds
  | point {ds fs : List Char} (hne : ds ≠ [] ∨ fs ≠ []) (hds : Digits ds) (hfs : Digits fs) :
      IsMantissa (ds ++ '.' :: fs)

/-- Nothing, or a mark with digits and perhaps a sign before them. -/
inductive IsExponent : List Char → Prop where
  | none : IsExponent []
  | marked {mark : Char} {sign ds : List Char} (hmark : mark = 'e' ∨ mark = 'E')
      (hsign : sign = [] ∨ sign = ['+'] ∨ sign = ['-']) (hne : ds ≠ []) (hds : Digits ds) :
      IsExponent (mark :: (sign ++ ds))

inductive Lexeme : Kind → List Char → Prop where
  | blank {cs : List Char} (hne : cs ≠ []) (hcs : ∀ c ∈ cs, isBlank c = true) : Lexeme .blank cs
  | lparen : Lexeme .lparen ['(']
  | rparen : Lexeme .rparen [')']
  | op (o : Op) : Lexeme (.op o) [o.symbol]
  | word {c : Char} {cs : List Char} (hc : isWordStart c = true)
      (hcs : ∀ d ∈ cs, isWordChar d = true) : Lexeme .word (c :: cs)
  | numeral {m e : List Char} (hm : IsMantissa m) (he : IsExponent e) : Lexeme .numeral (m ++ e)

/-- The longest beginning of a text that is a lexeme, with its kind, and what follows it. -/
structure Longest (cs : List Char) (k : Kind) (piece rest : List Char) : Prop where
  split : piece ++ rest = cs
  lexeme : Lexeme k piece
  longest : ∀ k' piece', Lexeme k' piece' → piece' <+: cs → piece'.length ≤ piece.length

def Starts (cs : List Char) : Prop := ∃ k piece, Lexeme k piece ∧ piece <+: cs

section characters

theorem isDecimalDigit_code {c : Char} (h : isDecimalDigit c = true) :
    (48 ≤ c.toNat ∧ c.toNat ≤ 57) ∨ 128 ≤ c.toNat := by
  have hzeros : ∀ z ∈ digitZeros, z = 48 ∨ 128 ≤ z := by decide
  obtain ⟨z, hz, hc⟩ := List.any_eq_true.1 h
  rw [Bool.and_eq_true, decide_eq_true_eq, decide_eq_true_eq] at hc
  have hzero := hzeros z hz
  omega

theorem isBlank_of_isDecimalDigit {c : Char} (h : isDecimalDigit c = true) : isBlank c = false := by
  have hapart : ∀ z ∈ digitZeros, ∀ r ∈ blankRanges, z + 10 ≤ r.1 ∨ r.2 < z := by decide
  obtain ⟨z, hz, hc⟩ := List.any_eq_true.1 h
  rw [Bool.and_eq_true, decide_eq_true_eq, decide_eq_true_eq] at hc
  refine Bool.eq_false_iff.2 fun hblank => ?_
  obtain ⟨r, hr, hcr⟩ := List.any_eq_true.1 hblank
  rw [Bool.and_eq_true, decide_eq_true_eq, decide_eq_true_eq] at hcr
  have hzr := hapart z hz r hr
  omega

theorem Op.symbol_of_ofSymbol? {c : Char} {o : Op} (h : ofSymbol? c = some o) : c = o.symbol := by
  unfold ofSymbol? at h
  split at h <;> simp at h <;> subst h <;> rfl

theorem Op.symbol_code (o : Op) : 42 ≤ o.symbol.toNat ∧ o.symbol.toNat ≤ 47 ∧ o.symbol.toNat ≠ 46 := by
  cases o <;> decide

theorem Op.ofSymbol?_eq_none {c : Char} (h : c.toNat = 46 ∨ 48 ≤ c.toNat) : ofSymbol? c = none := by
  refine Option.eq_none_iff_forall_ne_some.2 fun o ho => ?_
  have hsymbol := o.symbol_code
  rw [← symbol_of_ofSymbol? ho] at hsymbol
  omega

theorem isWordStart_code {c : Char} (h : isWordStart c = true) :
    65 ≤ c.toNat ∧ c.toNat ≤ 122 := by
  unfold isWordStart at h
  rw [Bool.or_eq_true, isAlpha_iff, beq_iff_eq] at h
  rcases h with h | rfl
  · omega
  · decide

theorem piece?_of_numeral_start {c : Char} (h : isDecimalDigit c = true ∨ c = '.') (cs : List Char) :
    piece? (c :: cs) = (numeral? (c :: cs)).map fun (piece, rest) => (.numeral, piece, rest) := by
  have hcode : (c.toNat = 46 ∨ 48 ≤ c.toNat ∧ c.toNat ≤ 57) ∨ 128 ≤ c.toNat := by
    rcases h with h | rfl
    · have hdigit := isDecimalDigit_code h
      omega
    · decide
  have hblank : isBlank c = false := by
    rcases h with h | rfl
    · exact isBlank_of_isDecimalDigit h
    · decide
  have hopen : c ≠ '(' := by
    rintro rfl
    revert hcode
    decide
  have hclose : c ≠ ')' := by
    rintro rfl
    revert hcode
    decide
  have hsymbol : Op.ofSymbol? c = none := Op.ofSymbol?_eq_none (by omega)
  have hword : isWordStart c = false := Bool.eq_false_iff.2 fun hword => by
    have hletter := isWordStart_code hword
    omega
  simp only [piece?, hblank, hopen, hclose, hsymbol, hword, Bool.false_eq_true, ↓reduceIte]

end characters

section sound

theorem isMantissa_of_mantissa? {cs m rest : List Char} (h : mantissa? cs = some (m, rest)) :
    IsMantissa m := by
  have hwhole : Digits (cs.takeWhile isDecimalDigit) := fun _ => List.mem_takeWhile_imp
  simp only [mantissa?] at h
  split at h
  · rename_i r _
    split at h
    · cases h
    · rename_i hne
      cases h
      exact .point (Decidable.not_and_iff_not_or_not.1 hne) hwhole fun _ => List.mem_takeWhile_imp
  · split at h
    · cases h
    · rename_i hne
      cases h
      exact .whole hne hwhole

theorem isExponent_splitExponent (cs : List Char) : IsExponent (splitExponent cs).1 := by
  cases cs with
  | nil => exact .none
  | cons c cs =>
    simp only [splitExponent]
    split
    · rename_i h
      refine .marked h.1 ?_ h.2 fun _ => List.mem_takeWhile_imp
      unfold splitSign
      split <;> simp
    · exact .none

theorem lexeme_of_piece? {cs piece rest : List Char} {k : Kind}
    (h : piece? cs = some (k, piece, rest)) : Lexeme k piece := by
  cases cs with
  | nil => cases h
  | cons c cs =>
    simp only [piece?] at h
    split at h
    · rename_i hc
      cases h
      refine .blank (by simp) fun d hd => ?_
      rcases List.mem_cons.1 hd with rfl | hd
      · exact hc
      · exact List.mem_takeWhile_imp hd
    split at h
    · rename_i hc
      cases h
      exact hc ▸ .lparen
    split at h
    · rename_i hc
      cases h
      exact hc ▸ .rparen
    split at h
    · rename_i o ho
      cases h
      exact Op.symbol_of_ofSymbol? ho ▸ .op o
    split at h
    · rename_i hc
      cases h
      exact .word hc fun _ => List.mem_takeWhile_imp
    · simp only [numeral?, Option.map_map, Option.map_eq_some_iff, Function.comp] at h
      obtain ⟨m, hm, he⟩ := h
      cases he
      exact .numeral (isMantissa_of_mantissa? hm) (isExponent_splitExponent m.2)

end sound

section complete

variable {m e : List Char}

/-- A mantissa at the beginning is read whole, and with it what may belong to it. -/
theorem mantissa?_append_of (h : IsMantissa m) (rest : List Char) :
    ∃ more rest', mantissa? (m ++ rest) = some (m ++ more, rest') ∧
      ((∀ c, rest.head? = some c → isDecimalDigit c = false ∧ c ≠ '.') → more = [] ∧ rest' = rest) := by
  cases h with
  | whole hne hds =>
    simp only [mantissa?, List.takeWhile_append_of_pos hds, List.dropWhile_append_of_pos hds]
    split
    · rename_i r hr
      have hwhole : m ++ rest.takeWhile isDecimalDigit ≠ [] := by simp [hne]
      rw [if_neg fun hnil => hwhole hnil.1]
      refine ⟨_, _, by rw [List.append_assoc], fun hstop => ?_⟩
      rw [dropWhile_none fun c hc => (hstop c hc).1] at hr
      exact absurd rfl (hstop '.' (by rw [hr]; rfl)).2
    · rename_i hpoint
      rw [if_neg (by simp [hne])]
      refine ⟨_, _, rfl, fun hstop => ?_⟩
      have hnone : ∀ c, rest.head? = some c → isDecimalDigit c = false := fun c hc => (hstop c hc).1
      exact ⟨takeWhile_none hnone, dropWhile_none hnone⟩
  | @point ds fs hne hds hfs =>
    have hpoint : ∀ c, ('.' :: (fs ++ rest)).head? = some c → isDecimalDigit c = false := by
      intro c hc
      obtain rfl := Option.some.inj hc
      decide
    rw [List.append_assoc, List.cons_append]
    simp only [mantissa?, takeWhile_run hds hpoint, dropWhile_run hds hpoint,
      List.takeWhile_append_of_pos hfs, List.dropWhile_append_of_pos hfs]
    rw [if_neg]
    · refine ⟨rest.takeWhile isDecimalDigit, rest.dropWhile isDecimalDigit, by simp, fun hstop => ?_⟩
      have hnone : ∀ c, rest.head? = some c → isDecimalDigit c = false := fun c hc => (hstop c hc).1
      exact ⟨takeWhile_none hnone, dropWhile_none hnone⟩
    · rintro ⟨hd, hf⟩
      exact hne.elim (· hd) fun hfs => hfs (List.append_eq_nil_iff.1 hf).1

theorem splitSign_append_of {sign ds : List Char} (hsign : sign = [] ∨ sign = ['+'] ∨ sign = ['-'])
    (hne : ds ≠ []) (hds : Digits ds) (rest : List Char) :
    splitSign (sign ++ (ds ++ rest)) = (sign, ds ++ rest) := by
  rcases hsign with rfl | rfl | rfl
  · obtain ⟨d, ds, rfl⟩ := List.exists_cons_of_ne_nil hne
    have hd := hds d List.mem_cons_self
    simp only [List.nil_append, List.cons_append, splitSign]
    split
    · rename_i heq
      rw [(List.cons.inj heq).1] at hd
      cases hd
    · rename_i heq
      rw [(List.cons.inj heq).1] at hd
      cases hd
    · rfl
  · rfl
  · rfl

theorem splitExponent_append_of (h : IsExponent e) (rest : List Char) :
    ∃ more rest', splitExponent (e ++ rest) = (e ++ more, rest') := by
  cases h with
  | none => exact ⟨_, _, rfl⟩
  | @marked mark sign ds hmark hsign hne hds =>
    rw [List.cons_append, List.append_assoc]
    simp only [splitExponent, splitSign_append_of hsign hne hds, List.takeWhile_append_of_pos hds]
    rw [if_pos ⟨hmark, by simp [hne]⟩]
    exact ⟨rest.takeWhile isDecimalDigit, rest.dropWhile isDecimalDigit, by
      simp [List.dropWhile_append_of_pos hds]⟩

theorem numeral?_append_of (hm : IsMantissa m) (he : IsExponent e) (rest : List Char) :
    ∃ more rest', numeral? (m ++ e ++ rest) = some (m ++ e ++ more, rest') := by
  obtain ⟨more, rest', hmantissa, hstop⟩ := mantissa?_append_of hm (e ++ rest)
  rw [List.append_assoc, numeral?, hmantissa, Option.map_some]
  by_cases hnone : e = []
  · subst hnone
    exact ⟨more ++ (splitExponent rest').1, (splitExponent rest').2, by simp⟩
  · -- the mark of an exponent is no part of the mantissa before it
    have hmark : ∀ c, (e ++ rest).head? = some c → isDecimalDigit c = false ∧ c ≠ '.' := by
      intro c hc
      cases he with
      | none => exact absurd rfl hnone
      | marked hmark =>
        obtain rfl := Option.some.inj hc
        rcases hmark with rfl | rfl <;> decide
    obtain ⟨rfl, rfl⟩ := hstop hmark
    obtain ⟨more, rest', hexponent⟩ := splitExponent_append_of he rest
    exact ⟨more, rest', by simp [hexponent]⟩

theorem IsMantissa.exists_cons (h : IsMantissa m) :
    ∃ c cs, m = c :: cs ∧ (isDecimalDigit c = true ∨ c = '.') := by
  cases h with
  | whole hne hds =>
    obtain ⟨d, ds, rfl⟩ := List.exists_cons_of_ne_nil hne
    exact ⟨d, ds, rfl, .inl (hds d List.mem_cons_self)⟩
  | @point ds fs _ hds _ =>
    cases ds with
    | nil => exact ⟨'.', fs, rfl, .inr rfl⟩
    | cons d ds => exact ⟨d, _, rfl, .inl (hds d List.mem_cons_self)⟩

theorem Lexeme.ne_nil {k : Kind} {piece : List Char} (h : Lexeme k piece) : piece ≠ [] := by
  cases h with
  | blank hne => exact hne
  | lparen | rparen | op _ | word => simp
  | numeral hm =>
    obtain ⟨c, cs, rfl, -⟩ := hm.exists_cons
    simp

/-- Where a lexeme begins a text, the piece that is cut off is of its kind and has it as a beginning. -/
theorem piece?_append_of {k : Kind} {piece : List Char} (h : Lexeme k piece) (rest : List Char) :
    ∃ more rest', piece? (piece ++ rest) = some (k, piece ++ more, rest') := by
  cases h with
  | blank hne hcs =>
    obtain ⟨c, cs, rfl⟩ := List.exists_cons_of_ne_nil hne
    obtain ⟨hc, hcs⟩ := List.forall_mem_cons.1 hcs
    refine ⟨rest.takeWhile isBlank, rest.dropWhile isBlank, ?_⟩
    simp only [List.cons_append, piece?, hc, ↓reduceIte, List.takeWhile_append_of_pos hcs,
      List.dropWhile_append_of_pos hcs]
  | lparen => exact ⟨[], rest, rfl⟩
  | rparen => exact ⟨[], rest, rfl⟩
  | op o => exact ⟨[], rest, piece?_symbol o rest⟩
  | @word c cs hc hcs =>
    refine ⟨rest.takeWhile isWordChar, rest.dropWhile isWordChar, ?_⟩
    rw [List.cons_append, piece?_of_isWordChar (isWordChar_of_isWordStart hc), if_pos hc,
      List.takeWhile_append_of_pos hcs, List.dropWhile_append_of_pos hcs, List.cons_append]
  | @numeral m e hm he =>
    obtain ⟨more, rest', hnumeral⟩ := numeral?_append_of hm he rest
    obtain ⟨c, cs, rfl, hc⟩ := hm.exists_cons
    refine ⟨more, rest', ?_⟩
    rw [List.cons_append, List.cons_append] at hnumeral ⊢
    rw [piece?_of_numeral_start hc, hnumeral, Option.map_some]

end complete

variable {cs piece rest : List Char} {k : Kind}

/-- The piece that is cut off is the longest beginning that is a lexeme. -/
theorem piece?_eq_some_iff : piece? cs = some (k, piece, rest) ↔ Longest cs k piece rest := by
  constructor
  · intro h
    refine ⟨(piece?_append h).1, lexeme_of_piece? h, fun k' piece' hlexeme hbegins => ?_⟩
    obtain ⟨rest', rfl⟩ := hbegins
    obtain ⟨more, rest'', hpiece⟩ := piece?_append_of hlexeme rest'
    rw [h] at hpiece
    obtain ⟨-, rfl, -⟩ : k = k' ∧ piece = piece' ++ more ∧ rest = rest'' := by simpa using hpiece
    simp
  · intro h
    obtain ⟨more, rest', hpiece⟩ := piece?_append_of h.lexeme rest
    rw [h.split] at hpiece
    have hsplit := (piece?_append hpiece).1
    have hlength := h.longest k _ (lexeme_of_piece? hpiece) ⟨rest', hsplit⟩
    obtain rfl : more = [] := by
      rw [List.length_append] at hlength
      exact List.eq_nil_of_length_eq_zero (by omega)
    rw [← h.split, List.append_nil, List.append_cancel_left_eq] at hsplit
    rw [hpiece, List.append_nil, hsplit]

theorem piece?_eq_none_iff : piece? cs = none ↔ ¬Starts cs := by
  constructor
  · rintro h ⟨k, piece, hlexeme, rest, rfl⟩
    obtain ⟨more, rest', hpiece⟩ := piece?_append_of hlexeme rest
    rw [h] at hpiece
    cases hpiece
  · intro h
    cases hp : piece? cs with
    | none => rfl
    | some found =>
      obtain ⟨k, piece, rest⟩ := found
      exact absurd ⟨k, piece, lexeme_of_piece? hp, rest, (piece?_append hp).1⟩ h

end Worksheet.Formula
