import Mathlib.Data.List.Forall2
import Worksheet.Proofs.Formula.Lexemes

set_option autoImplicit false

/-!
# Splitting a text into lexemes

A text is read exactly if it splits from left to right into longest lexemes and its numerals are finite
numbers. Otherwise the fault names what the splitting meets first.
-/
namespace Worksheet.Formula

abbrev Pieces := List (Kind × List Char)

/-- A text begins with these pieces, each the longest lexeme at its place, and `rest` follows them. -/
inductive Splits : List Char → Pieces → List Char → Prop where
  | nil (cs : List Char) : Splits cs [] cs
  | cons {cs piece rest rest' : List Char} {k : Kind} {pieces : Pieces}
      (h : Longest cs k piece rest) (hrest : Splits rest pieces rest') :
      Splits cs ((k, piece) :: pieces) rest'

def AllRead (pieces : Pieces) : Prop :=
  ∀ piece, (.numeral, piece) ∈ pieces → (Number.readFinite piece).isSome = true

def withoutBlanks (pieces : Pieces) : Pieces := pieces.filter fun p => decide (p.1 ≠ .blank)

/-- The token that a piece spells. Blanks spell none. -/
inductive Spells : Kind × List Char → Token → Prop where
  | lparen (piece : List Char) : Spells (.lparen, piece) .lparen
  | rparen (piece : List Char) : Spells (.rparen, piece) .rparen
  | op (o : Op) (piece : List Char) : Spells (.op o, piece) (.op o)
  | word (piece : List Char) : Spells (.word, piece) (.var (String.ofList piece))
  | numeral {piece : List Char} {x : Float} (h : Number.readFinite piece = some x) :
      Spells (.numeral, piece) (.num x)

/-- What is in the way of splitting a text further: a numeral that is no finite number, or characters at
which no lexeme begins, up to the next place where one does or to the end. -/
inductive Obstacle : List Char → List Char → Prop where
  | unread {cs piece rest : List Char} (h : Longest cs .numeral piece rest)
      (hread : Number.readFinite piece = none) : Obstacle cs piece
  | unmatched {run rest : List Char} (hne : run ≠ [])
      (hrun : ∀ cs, cs <:+ run → cs ≠ [] → ¬Starts (cs ++ rest)) (hrest : rest = [] ∨ Starts rest) :
      Obstacle (run ++ rest) run

section junk

variable {c : Char} {cs run rest : List Char}

theorem starts_iff : Starts cs ↔ (piece? cs).isSome = true := by
  have hnone : piece? cs = none ↔ ¬Starts cs := piece?_eq_none_iff
  cases hp : piece? cs <;> simp [hp] at hnone ⊢ <;> exact hnone

theorem junk_of_starts (h : Starts cs) : junk cs = [] := by
  cases cs with
  | nil => rfl
  | cons c cs => rw [junk, if_pos (starts_iff.1 h)]

theorem junk_cons (h : ¬Starts (c :: cs)) : junk (c :: cs) = c :: junk cs := by
  rw [junk, if_neg fun hp => h (starts_iff.2 hp)]

theorem junk_append (hrun : ∀ cs, cs <:+ run → cs ≠ [] → ¬Starts (cs ++ rest))
    (hrest : rest = [] ∨ Starts rest) : junk (run ++ rest) = run := by
  induction run with
  | nil =>
    rcases hrest with rfl | hstarts
    · rfl
    · exact junk_of_starts hstarts
  | cons c run ih =>
    have hfirst := hrun (c :: run) List.suffix_rfl (by simp)
    rw [List.cons_append] at hfirst ⊢
    rw [junk_cons hfirst, ih fun cs hcs => hrun cs (hcs.trans (List.suffix_cons c run))]

theorem exists_junk (cs : List Char) : ∃ rest, junk cs ++ rest = cs ∧
    (∀ ds, ds <:+ junk cs → ds ≠ [] → ¬Starts (ds ++ rest)) ∧ (rest = [] ∨ Starts rest) := by
  induction cs with
  | nil => exact ⟨[], rfl, fun ds hds hne => absurd (List.suffix_nil.1 hds) hne, .inl rfl⟩
  | cons c cs ih =>
    by_cases h : Starts (c :: cs)
    · rw [junk_of_starts h]
      exact ⟨c :: cs, rfl, fun ds hds hne => absurd (List.suffix_nil.1 hds) hne, .inr h⟩
    · obtain ⟨rest, hsplit, hrun, hrest⟩ := ih
      rw [junk_cons h]
      refine ⟨rest, by rw [List.cons_append, hsplit], fun ds hds hne => ?_, hrest⟩
      rcases List.suffix_cons_iff.1 hds with rfl | hds
      · rwa [List.cons_append, hsplit]
      · exact hrun ds hds hne

theorem obstacle_junk (hne : cs ≠ []) (h : ¬Starts cs) : Obstacle cs (junk cs) := by
  obtain ⟨c, cs, rfl⟩ := List.exists_cons_of_ne_nil hne
  obtain ⟨rest, hsplit, hrun, hrest⟩ := exists_junk (c :: cs)
  have hobstacle : Obstacle (junk (c :: cs) ++ rest) (junk (c :: cs)) :=
    .unmatched (by simp [junk_cons h]) hrun hrest
  rwa [hsplit] at hobstacle

end junk

section tokens

variable {k : Kind} {piece : List Char} {pieces : Pieces} {t : Token}

theorem spells_iff : Spells (k, piece) t ↔ k.tokens? piece = some [t] := by
  constructor
  · intro h
    cases h with
    | numeral hread => simp [Kind.tokens?, hread]
    | lparen | rparen | op _ | word => rfl
  · intro h
    cases k with
    | blank => cases h
    | numeral =>
      obtain ⟨x, hx, ht⟩ := Option.map_eq_some_iff.1 h
      cases ht
      exact .numeral hx
    | lparen | rparen | op _ | word =>
      cases h
      constructor

theorem allRead_cons : AllRead ((k, piece) :: pieces) ↔
    (k = .numeral → (Number.readFinite piece).isSome = true) ∧ AllRead pieces := by
  constructor
  · exact fun h => ⟨fun hk => h piece (hk ▸ List.mem_cons_self), fun p hp => h p (List.mem_cons_of_mem _ hp)⟩
  · rintro ⟨hfirst, hrest⟩ p hp
    rcases List.mem_cons.1 hp with heq | hp
    · cases heq
      exact hfirst rfl
    · exact hrest p hp

theorem withoutBlanks_blank : withoutBlanks ((.blank, piece) :: pieces) = withoutBlanks pieces := rfl

theorem withoutBlanks_cons (h : k ≠ .blank) :
    withoutBlanks ((k, piece) :: pieces) = (k, piece) :: withoutBlanks pieces := by
  simp [withoutBlanks, h]

theorem exists_spells (hk : k ≠ .blank) (h : k = .numeral → (Number.readFinite piece).isSome = true) :
    ∃ t, Spells (k, piece) t := by
  cases k with
  | blank => exact absurd rfl hk
  | numeral =>
    obtain ⟨x, hx⟩ := Option.isSome_iff_exists.1 (h rfl)
    exact ⟨_, .numeral hx⟩
  | lparen => exact ⟨_, .lparen piece⟩
  | rparen => exact ⟨_, .rparen piece⟩
  | op o => exact ⟨_, .op o piece⟩
  | word => exact ⟨_, .word piece⟩

theorem allRead_iff : AllRead pieces ↔ ∃ ts, List.Forall₂ Spells (withoutBlanks pieces) ts := by
  induction pieces with
  | nil => exact iff_of_true (fun p hp => absurd hp List.not_mem_nil) ⟨[], .nil⟩
  | cons p pieces ih =>
    obtain ⟨k, piece⟩ := p
    rw [allRead_cons, ih]
    by_cases hk : k = .blank
    · subst hk
      simp [withoutBlanks_blank]
    · rw [withoutBlanks_cons hk]
      constructor
      · rintro ⟨hfirst, ts, hts⟩
        obtain ⟨t, ht⟩ := exists_spells hk hfirst
        exact ⟨t :: ts, .cons ht hts⟩
      · rintro ⟨ts, hts⟩
        cases hts with
        | @cons _ t _ us ht hus =>
          refine ⟨?_, us, hus⟩
          rintro rfl
          cases ht with
          | numeral hread => simp [hread]

end tokens

section splitting

variable {cs rest : List Char} {pieces : Pieces} {ts : List Token}

/-- What is spelled before some place of a text stands before what is read from there on. -/
theorem Splits.lex_eq (h : Splits cs pieces rest)
    (hts : List.Forall₂ Spells (withoutBlanks pieces) ts) : lex cs = (lex rest).map (ts ++ ·) := by
  induction h generalizing ts with
  | nil cs =>
    cases hts
    cases lex cs <;> rfl
  | @cons cs piece rest rest' k pieces h hrest ih =>
    rw [lex_cut (piece?_eq_some_iff.2 h)]
    by_cases hk : k = .blank
    · subst hk
      rw [withoutBlanks_blank] at hts
      rw [ih hts]
      cases lex rest' <;> rfl
    · rw [withoutBlanks_cons hk] at hts
      cases hts with
      | cons ht hts =>
        rw [spells_iff.1 ht, ih hts]
        cases lex rest' <;> rfl

theorem Obstacle.lex_eq {text : List Char} (h : Obstacle cs text) :
    lex cs = .error (.badToken (String.ofList text)) := by
  cases h with
  | unread h hread => simp [lex_cut (piece?_eq_some_iff.2 h), Kind.tokens?, hread]
  | @unmatched _ rest hne hrun hrest =>
    rw [lex_stuck (piece?_eq_none_iff.2 (hrun text List.suffix_rfl hne)) (by simp [hne]),
      junk_append hrun hrest]

/-- Every text splits up to its end or up to an obstacle. -/
theorem exists_splits (cs : List Char) : ∃ pieces rest, Splits cs pieces rest ∧ AllRead pieces ∧
    (rest = [] ∨ ∃ text, Obstacle rest text) := by
  have hnone : AllRead [] := fun p hp => absurd hp List.not_mem_nil
  induction hlength : cs.length using Nat.strongRecOn generalizing cs with
  | ind n ih =>
    subst hlength
    cases hp : piece? cs with
    | none =>
      refine ⟨[], cs, .nil cs, hnone, ?_⟩
      by_cases hne : cs = []
      · exact .inl hne
      · exact .inr ⟨junk cs, obstacle_junk hne (piece?_eq_none_iff.1 hp)⟩
    | some found =>
      obtain ⟨k, piece, rest⟩ := found
      have hlongest := piece?_eq_some_iff.1 hp
      by_cases hread : k = .numeral → (Number.readFinite piece).isSome = true
      · obtain ⟨pieces, rest', hsplits, hall, hend⟩ := ih _ (piece?_length hp) rest rfl
        exact ⟨(k, piece) :: pieces, rest', .cons hlongest hsplits, allRead_cons.2 ⟨hread, hall⟩, hend⟩
      · obtain ⟨rfl, hbad⟩ := Classical.not_imp.1 hread
        exact ⟨[], cs, .nil cs, hnone, .inr ⟨piece, .unread hlongest (by simpa using hbad)⟩⟩

theorem lex_eq_ok_iff : lex cs = .ok ts ↔
    ∃ pieces, Splits cs pieces [] ∧ List.Forall₂ Spells (withoutBlanks pieces) ts := by
  have read {pieces : Pieces} {ts : List Token} (hsplits : Splits cs pieces [])
      (hts : List.Forall₂ Spells (withoutBlanks pieces) ts) : lex cs = .ok ts := by
    rw [hsplits.lex_eq hts, lex_nil]
    simp [Except.map]
  constructor
  · intro h
    obtain ⟨pieces, rest, hsplits, hall, hend⟩ := exists_splits cs
    obtain ⟨us, hus⟩ := allRead_iff.1 hall
    rcases hend with rfl | ⟨text, hobstacle⟩
    · rw [read hsplits hus] at h
      cases h
      exact ⟨pieces, hsplits, hus⟩
    · rw [hsplits.lex_eq hus, hobstacle.lex_eq] at h
      cases h
  · rintro ⟨pieces, hsplits, hts⟩
    exact read hsplits hts

theorem lex_eq_error_iff {fault : Fault} : lex cs = .error fault ↔ ∃ pieces rest text,
    Splits cs pieces rest ∧ AllRead pieces ∧ Obstacle rest text ∧
      fault = .badToken (String.ofList text) := by
  constructor
  · intro h
    obtain ⟨pieces, rest, hsplits, hall, hend⟩ := exists_splits cs
    obtain ⟨us, hus⟩ := allRead_iff.1 hall
    rw [hsplits.lex_eq hus] at h
    rcases hend with rfl | ⟨text, hobstacle⟩
    · rw [lex_nil] at h
      cases h
    · rw [hobstacle.lex_eq] at h
      cases h
      exact ⟨pieces, rest, text, hsplits, hall, hobstacle, rfl⟩
  · rintro ⟨pieces, rest, text, hsplits, hall, hobstacle, rfl⟩
    obtain ⟨us, hus⟩ := allRead_iff.1 hall
    rw [hsplits.lex_eq hus, hobstacle.lex_eq]
    rfl

end splitting

/-- A text is read exactly if it splits into longest lexemes and all its numerals are finite numbers, and
the tokens are then its pieces without the blanks. A text that is not read splits up to an obstacle, and
the fault names that. -/
theorem tokenize_splits (s : String) :
    ((∃ ts, tokenize s = .ok ts) ↔ ∃ pieces, Splits s.toList pieces [] ∧ AllRead pieces) ∧
    (∀ ts, tokenize s = .ok ts ↔
      ∃ pieces, Splits s.toList pieces [] ∧ List.Forall₂ Spells (withoutBlanks pieces) ts) ∧
    ∀ fault, tokenize s = .error fault ↔ ∃ pieces rest text, Splits s.toList pieces rest ∧
      AllRead pieces ∧ Obstacle rest text ∧ fault = .badToken (String.ofList text) := by
  refine ⟨?_, fun ts => lex_eq_ok_iff, fun fault => lex_eq_error_iff⟩
  unfold tokenize
  constructor
  · rintro ⟨ts, h⟩
    obtain ⟨pieces, hsplits, hts⟩ := lex_eq_ok_iff.1 h
    exact ⟨pieces, hsplits, allRead_iff.2 ⟨ts, hts⟩⟩
  · rintro ⟨pieces, hsplits, hall⟩
    obtain ⟨ts, hts⟩ := allRead_iff.1 hall
    exact ⟨ts, lex_eq_ok_iff.2 ⟨pieces, hsplits, hts⟩⟩

end Worksheet.Formula
