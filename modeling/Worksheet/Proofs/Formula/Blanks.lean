import Worksheet.Proofs.Formula.Splitting

set_option autoImplicit false

/-!
# Blanks between lexemes

Blanks end whatever stands before them and belong to nothing but other blanks, so a text with blanks in
it is read part by part.
-/
namespace Worksheet.Formula
open Worksheet.Text

/-- The text is empty or goes on with a blank. -/
def Pauses (cs : List Char) : Prop := ∀ c, cs.head? = some c → isBlank c = true

section lexemes

variable {k : Kind} {piece cs rest more : List Char}

theorem IsMantissa.isBlank_eq {m : List Char} (h : IsMantissa m) : ∀ c ∈ m, isBlank c = false := by
  cases h with
  | whole _ hds => exact fun c hc => isBlank_of_isDecimalDigit (hds c hc)
  | point _ hds hfs =>
    intro c hc
    rcases List.mem_append.1 hc with hc | hc
    · exact isBlank_of_isDecimalDigit (hds c hc)
    rcases List.mem_cons.1 hc with rfl | hc
    · decide
    · exact isBlank_of_isDecimalDigit (hfs c hc)

theorem IsExponent.isBlank_eq {e : List Char} (h : IsExponent e) : ∀ c ∈ e, isBlank c = false := by
  cases h with
  | none => exact fun c hc => absurd hc List.not_mem_nil
  | marked hmark hsign _ hds =>
    intro c hc
    rcases List.mem_cons.1 hc with rfl | hc
    · rcases hmark with rfl | rfl <;> decide
    rcases List.mem_append.1 hc with hc | hc
    · rcases hsign with rfl | rfl | rfl <;> simp at hc <;> subst hc <;> decide
    · exact isBlank_of_isDecimalDigit (hds c hc)

theorem Lexeme.isBlank_eq (h : Lexeme k piece) (hk : k ≠ .blank) : ∀ c ∈ piece, isBlank c = false := by
  cases h with
  | blank => exact absurd rfl hk
  | lparen | rparen => exact List.forall_mem_singleton.2 (isBlank_of_ascii (by decide))
  | op o =>
    have hcode := o.symbol_code
    exact List.forall_mem_singleton.2 (isBlank_of_ascii (by omega))
  | word hc hcs =>
    exact List.forall_mem_cons.2 ⟨isBlank_of_isWordChar (isWordChar_of_isWordStart hc),
      fun d hd => isBlank_of_isWordChar (hcs d hd)⟩
  | numeral hm he => exact List.forall_mem_append.2 ⟨hm.isBlank_eq, he.isBlank_eq⟩

theorem Lexeme.prefix_of_pauses (h : Lexeme k piece) (hmore : Pauses more)
    (hcs : ∃ c ∈ cs, isBlank c = false) (hp : piece <+: cs ++ more) : piece <+: cs := by
  rcases prefix_append_cases hp with hp | ⟨front, hfront, rfl⟩
  · exact hp
  cases front with
  | nil => simp
  | cons d front =>
    obtain ⟨c, hc, hblank⟩ := hcs
    obtain ⟨back, rfl⟩ := hfront
    have hd : isBlank d = true := hmore d rfl
    by_cases hk : k = .blank
    · subst hk
      cases h with
      | blank _ hall => simp [hall c (by simp [hc])] at hblank
    · have hnone := h.isBlank_eq hk d (by simp)
      rw [hd] at hnone
      cases hnone

/-- What goes on with blanks after a text changes nothing in its first piece, unless that is blank. -/
theorem Longest.append_pauses (h : Longest cs k piece rest) (hk : k ≠ .blank) (hmore : Pauses more) :
    Longest (cs ++ more) k piece (rest ++ more) := by
  refine ⟨by rw [← List.append_assoc, h.split], h.lexeme, fun k' piece' hlexeme hp => ?_⟩
  obtain ⟨c, hc⟩ := List.exists_mem_of_ne_nil piece h.lexeme.ne_nil
  have hcs : c ∈ cs := h.split ▸ List.mem_append_left rest hc
  exact h.longest k' piece' hlexeme
    (hlexeme.prefix_of_pauses hmore ⟨c, hcs, h.lexeme.isBlank_eq hk c hc⟩ hp)

theorem starts_of_isBlank {c : Char} (h : isBlank c = true) (cs : List Char) : Starts (c :: cs) :=
  ⟨.blank, [c], .blank (by simp) (by simpa using h), cs, rfl⟩

theorem Starts.append (h : Starts cs) (more : List Char) : Starts (cs ++ more) := by
  obtain ⟨k, piece, hlexeme, hp⟩ := h
  exact ⟨k, piece, hlexeme, hp.trans (List.prefix_append cs more)⟩

theorem not_starts_append (hne : cs ≠ []) (h : ¬Starts cs) (hmore : Pauses more) :
    ¬Starts (cs ++ more) := by
  rintro ⟨k, piece, hlexeme, hp⟩
  obtain ⟨c, cs, rfl⟩ := List.exists_cons_of_ne_nil hne
  have hc : isBlank c = false := Bool.eq_false_iff.2 fun hblank => h (starts_of_isBlank hblank cs)
  exact h ⟨k, piece, hlexeme, hlexeme.prefix_of_pauses hmore ⟨c, List.mem_cons_self, hc⟩ hp⟩

theorem junk_append_pauses (hmore : Pauses more) : junk (cs ++ more) = junk cs := by
  obtain ⟨rest, hsplit, hrun, hrest⟩ := exists_junk cs
  generalize junk cs = run at hsplit hrun ⊢
  subst hsplit
  rw [List.append_assoc]
  refine junk_append (fun ds hds hne => ?_) ?_
  · rw [← List.append_assoc]
    exact not_starts_append (by simp [hne]) (hrun ds hds hne) hmore
  · rcases hrest with rfl | hstarts
    · cases more with
      | nil => exact .inl rfl
      | cons c more => exact .inr (starts_of_isBlank (hmore c rfl) more)
    · exact .inr (hstarts.append more)

end lexemes

section reading

variable {cs more : List Char}

theorem lex_dropWhile (cs : List Char) : lex (cs.dropWhile isBlank) = lex cs := by
  cases cs with
  | nil => rfl
  | cons c cs =>
    by_cases hc : isBlank c = true
    · have hpiece : piece? (c :: cs) =
          some (.blank, c :: cs.takeWhile isBlank, cs.dropWhile isBlank) := by simp [piece?, hc]
      rw [lex_cut hpiece, List.dropWhile_cons_of_pos hc]
      cases lex (cs.dropWhile isBlank) <;> rfl
    · rw [List.dropWhile_cons_of_neg hc]

theorem lex_cons_of_isBlank {c : Char} (h : isBlank c = true) (cs : List Char) :
    lex (c :: cs) = lex cs := by
  rw [← lex_dropWhile, List.dropWhile_cons_of_pos h, lex_dropWhile]

theorem kind_ne_blank {c : Char} {piece rest : List Char} {k : Kind} (hc : isBlank c = false)
    (h : Longest (c :: cs) k piece rest) : k ≠ .blank := by
  rintro rfl
  obtain ⟨d, ds, rfl⟩ := List.exists_cons_of_ne_nil h.lexeme.ne_nil
  obtain rfl : d = c := (List.cons.inj h.split).1
  cases h.lexeme with
  | blank _ hall => simp [hall d] at hc

theorem lex_append_pauses (hmore : Pauses more) (cs : List Char) :
    lex (cs ++ more) = (lex cs).bind fun ts => (lex more).map (ts ++ ·) := by
  -- on the length of the text, which each blank and each piece makes shorter
  induction hlength : cs.length using Nat.strongRecOn generalizing cs with
  | ind n ih =>
    subst hlength
    cases cs with
    | nil =>
      rw [lex_nil, List.nil_append]
      cases hrest : lex more <;> simp [Except.map, Except.bind]
    | cons c cs =>
      by_cases hc : isBlank c = true
      · rw [List.cons_append, lex_cons_of_isBlank hc, lex_cons_of_isBlank hc]
        exact ih _ (by simp) cs rfl
      rw [Bool.not_eq_true] at hc
      cases hp : piece? (c :: cs) with
      | none =>
        have hstuck := not_starts_append (by simp) (piece?_eq_none_iff.1 hp) hmore
        rw [lex_stuck hp (by simp), lex_stuck (piece?_eq_none_iff.2 hstuck) (by simp),
          junk_append_pauses hmore]
        rfl
      | some found =>
        obtain ⟨k, piece, rest⟩ := found
        have hfirst := piece?_eq_some_iff.1 hp
        have hlongest := hfirst.append_pauses (kind_ne_blank hc hfirst) hmore
        rw [lex_cut hp, lex_cut (piece?_eq_some_iff.2 hlongest)]
        cases k.tokens? piece with
        | none => rfl
        | some ts =>
          dsimp only
          rw [ih _ (piece?_length hp) rest rfl]
          cases lex rest with
          | error e => rfl
          | ok us => cases lex more <;> simp [Except.map, Except.bind]

end reading

/-- Blanks separate two texts and do nothing else: what is wrong with the first is the fault, or else what
is wrong with the second, and if both are read, their tokens follow each other. -/
theorem tokenize_append_blanks (a b w : String) (hne : w ≠ "")
    (hw : ∀ c ∈ w.toList, isBlank c = true) :
    tokenize (a ++ w ++ b) = match tokenize a, tokenize b with
      | .error fault, _ => .error fault
      | .ok _, .error fault => .error fault
      | .ok ts, .ok us => .ok (ts ++ us) := by
  have hmore : Pauses (w.toList ++ b.toList) := by
    intro c hc
    cases hlist : w.toList with
    | nil => exact absurd (String.toList_eq_nil_iff.1 hlist) hne
    | cons d ds =>
      rw [hlist] at hc hw
      obtain rfl := Option.some.inj hc
      exact hw d List.mem_cons_self
  have hsecond : lex (w.toList ++ b.toList) = lex b.toList := by
    rw [← lex_dropWhile, List.dropWhile_append_of_pos hw, lex_dropWhile]
  unfold tokenize
  rw [String.append_assoc, String.toList_append, String.toList_append, lex_append_pauses hmore,
    hsecond]
  cases lex a.toList with
  | error fault => rfl
  | ok ts => cases lex b.toList <;> rfl

/-- The point does not go with the digit behind the blanks, and neither is it lost. -/
theorem tokenize_append_blanks_point : "\t " ≠ "" ∧ (∀ c ∈ "\t ".toList, isBlank c = true) ∧
    tokenize ("x$." ++ "\t " ++ "5") = .error (.badToken "$.") := by
  have hne : "\t " ≠ "" := by decide
  have hw : ∀ c ∈ "\t ".toList, isBlank c = true := List.all_eq_true.1 (by decide)
  have hword : piece? ['x', '$', '.'] = some (.word, ['x'], ['$', '.']) := by decide
  have hstuck : piece? ['$', '.'] = none := by decide
  have hfirst : tokenize "x$." = .error (.badToken "$.") := by
    change lex ['x', '$', '.'] = _
    rw [lex_cut hword, lex_stuck hstuck (by simp)]
    rfl
  refine ⟨hne, hw, ?_⟩
  rw [tokenize_append_blanks "x$." "5" "\t " hne hw, hfirst]

end Worksheet.Formula
