import Worksheet.Formula.Lexeme

set_option autoImplicit false

/-!
# The alternatives for a piece

Pieces of formula texts are given by a pattern with alternatives in a fixed order, some of which begin
alike. A pattern stands here for all the ways to take a beginning off a text, the preferred way first: of
two alternatives the earlier one, of a repetition the longer run. The piece that is cut off a text is what
the first alternative that matches takes in its preferred way.
-/
namespace Worksheet.Formula
open Worksheet.Text

/-- What can be left of a text, in the order in which it is tried. -/
abbrev Ways := List Char → List (List Char)

namespace Ways

def one (p : Char → Bool) : Ways
  | [] => []
  | c :: cs => if p c then [cs] else []

def many (p : Char → Bool) : Ways
  | [] => [[]]
  | c :: cs => if p c then many p cs ++ [c :: cs] else [c :: cs]

def seq (a b : Ways) : Ways := fun cs => (a cs).flatMap b

def alt (a b : Ways) : Ways := fun cs => a cs ++ b cs

def maybe (a : Ways) : Ways := fun cs => a cs ++ [cs]

def run (p : Char → Bool) : Ways := seq (one p) (many p)

def point (a : Ways) : Ways := seq (one (· == '.')) a

def sign : Ways := one fun c => c == '+' || c == '-'

/-- Digits with a point behind them or among them, a point with digits behind it, or only digits. -/
def mantissa : Ways :=
  alt (seq (run isDecimalDigit) (point (many isDecimalDigit)))
    (alt (seq (many isDecimalDigit) (point (run isDecimalDigit))) (run isDecimalDigit))

def exponent : Ways :=
  seq (one fun c => c == 'e' || c == 'E') (seq (maybe sign) (run isDecimalDigit))

end Ways

/-- The alternatives, each by its name. -/
inductive Group where
  | blank
  | lparen
  | rparen
  | op
  | word
  | numeral

def Group.ways : Group → Ways
  | blank => .run isBlank
  | lparen => .one (· == '(')
  | rparen => .one (· == ')')
  | op => .one fun c => c == '+' || c == '-' || c == '*' || c == '/'
  | word => .seq (.one isWordStart) (.many isWordChar)
  | numeral => .seq .mantissa (.maybe .exponent)

/-- The order in which the alternatives are tried. -/
def Group.all : List Group := [blank, lparen, rparen, op, word, numeral]

/-- The first alternative that matches, and what it leaves. -/
def firstMatch? (cs : List Char) : Option (Group × List Char) :=
  Group.all.findSome? fun g => (g.ways cs).head?.map fun rest => (g, rest)

def Kind.group : Kind → Group
  | blank => .blank
  | lparen => .lparen
  | rparen => .rparen
  | op _ => .op
  | word => .word
  | numeral => .numeral

namespace Ways

section first

variable {a b : Ways} {p q : Char → Bool}

theorem head?_one (p : Char → Bool) (c : Char) (cs : List Char) :
    (one p (c :: cs)).head? = if p c then some cs else none := by
  dsimp only [one]
  split <;> rfl

theorem head?_many (p : Char → Bool) (cs : List Char) :
    (many p cs).head? = some (cs.dropWhile p) := by
  induction cs with
  | nil => rfl
  | cons c cs ih =>
    rw [List.dropWhile_cons]
    dsimp only [many]
    split
    · rw [List.head?_append, ih]
      rfl
    · rfl

theorem head?_alt (a b : Ways) (cs : List Char) :
    (alt a b cs).head? = (a cs).head?.or (b cs).head? :=
  List.head?_append

theorem head?_maybe (a : Ways) (cs : List Char) :
    (maybe a cs).head? = some ((a cs).head?.getD cs) := by
  unfold maybe
  rw [List.head?_append]
  cases (a cs).head? <;> rfl

theorem head?_seq (hb : ∀ cs, ((b cs).head?).isSome) (a : Ways) (cs : List Char) :
    (seq a b cs).head? = (a cs).head?.bind fun rest => (b rest).head? := by
  unfold seq
  cases a cs with
  | nil => rfl
  | cons rest more =>
    obtain ⟨r, hr⟩ := Option.isSome_iff_exists.1 (hb rest)
    rw [List.flatMap_cons, List.head?_append, hr, List.head?_cons, Option.bind_some, hr]
    rfl

theorem head?_one_many (p q : Char → Bool) (c : Char) (cs : List Char) :
    (seq (one p) (many q) (c :: cs)).head? = if p c then some (cs.dropWhile q) else none := by
  have hmany : ∀ cs, ((many q cs).head?).isSome := fun cs => by rw [head?_many]; rfl
  rw [head?_seq hmany, head?_one]
  split
  · exact head?_many q cs
  · rfl

theorem head?_run (p : Char → Bool) (cs : List Char) :
    (run p cs).head? = if cs.takeWhile p = [] then none else some (cs.dropWhile p) := by
  cases cs with
  | nil => rfl
  | cons c cs =>
    unfold run
    rw [head?_one_many, List.takeWhile_cons, List.dropWhile_cons]
    cases p c <;> rfl

end first

section points

variable {f : Ways} {p : Char → Bool}

/-- Where nothing matches before a character of the run, only the whole run is left to take. -/
theorem seq_many (hf : ∀ c cs, p c = true → f (c :: cs) = []) (cs : List Char) :
    seq (many p) f cs = f (cs.dropWhile p) := by
  unfold seq
  induction cs with
  | nil => exact List.append_nil _
  | cons c cs ih =>
    rw [List.dropWhile_cons]
    dsimp only [many]
    split
    · rename_i hc
      rw [List.flatMap_append, ih, List.flatMap_singleton, hf c cs hc, List.append_nil]
    · rw [List.flatMap_singleton]

theorem seq_run (hf : ∀ c cs, p c = true → f (c :: cs) = []) (cs : List Char) :
    seq (run p) f cs = if cs.takeWhile p = [] then [] else f (cs.dropWhile p) := by
  cases cs with
  | nil => rfl
  | cons c cs =>
    rw [List.takeWhile_cons, List.dropWhile_cons]
    change ((one p (c :: cs)).flatMap (many p)).flatMap f = _
    dsimp only [one]
    split
    · rw [List.flatMap_singleton, if_neg (List.cons_ne_nil _ _)]
      exact seq_many hf cs
    · rfl

theorem point_cons (f : Ways) (c : Char) (cs : List Char) :
    point f (c :: cs) = if c = '.' then f cs else [] := by
  change (one (· == '.') (c :: cs)).flatMap f = _
  dsimp only [one]
  by_cases hc : c = '.'
  · rw [if_pos (beq_iff_eq.2 hc), if_pos hc, List.flatMap_singleton]
  · rw [if_neg (fun h => hc (beq_iff_eq.1 h)), if_neg hc, List.flatMap_nil]

theorem point_digit (c : Char) (cs : List Char) (hc : isDecimalDigit c = true) :
    point f (c :: cs) = [] := by
  rw [point_cons, if_neg]
  rintro rfl
  exact absurd hc (by decide)

theorem mantissa?_of_point {cs rest : List Char} (h : cs.dropWhile isDecimalDigit = '.' :: rest) :
    (mantissa? cs).map (·.2) =
      if cs.takeWhile isDecimalDigit = [] ∧ rest.takeWhile isDecimalDigit = [] then none
      else some (rest.dropWhile isDecimalDigit) := by
  simp only [mantissa?, h]
  split <;> rfl

theorem mantissa?_of_no_point {cs : List Char} (h : ∀ rest, cs.dropWhile isDecimalDigit ≠ '.' :: rest) :
    (mantissa? cs).map (·.2) =
      if cs.takeWhile isDecimalDigit = [] then none else some (cs.dropWhile isDecimalDigit) := by
  dsimp only [mantissa?]
  split
  · exact absurd ‹_› (h _)
  · split <;> rfl

theorem head?_mantissa (cs : List Char) : (mantissa cs).head? = (mantissa? cs).map (·.2) := by
  unfold mantissa
  rw [head?_alt, head?_alt, seq_run point_digit, seq_many point_digit, head?_run]
  by_cases hpoint : ∃ rest, cs.dropWhile isDecimalDigit = '.' :: rest
  · obtain ⟨rest, hrest⟩ := hpoint
    rw [mantissa?_of_point hrest, hrest, point_cons, if_pos rfl, point_cons, if_pos rfl, head?_run]
    by_cases hwhole : cs.takeWhile isDecimalDigit = []
    · simp only [hwhole, true_and, ↓reduceIte, List.head?_nil, Option.none_or, Option.or_none]
    · simp only [hwhole, false_and, ↓reduceIte, head?_many, Option.some_or]
  · have hnone : ∀ f, point f (cs.dropWhile isDecimalDigit) = [] := by
      intro f
      cases hleft : cs.dropWhile isDecimalDigit with
      | nil => rfl
      | cons c rest =>
        rw [point_cons, if_neg]
        rintro rfl
        exact hpoint ⟨rest, hleft⟩
    rw [mantissa?_of_no_point fun rest hrest => hpoint ⟨rest, hrest⟩, hnone, hnone, ite_self]
    rfl

theorem seq_maybe (a b : Ways) (cs : List Char) :
    seq (maybe a) b cs = seq a b cs ++ b cs := by
  unfold seq maybe
  rw [List.flatMap_append, List.flatMap_singleton]

/-- A sign is no digit, so that it is left out only where no digits follow it. -/
theorem head?_signed (cs : List Char) :
    (seq (maybe sign) (run isDecimalDigit) cs).head? =
      if (splitSign cs).2.takeWhile isDecimalDigit = [] then none
      else some ((splitSign cs).2.dropWhile isDecimalDigit) := by
  rw [← head?_run, seq_maybe]
  unfold splitSign
  split
  · change (([_].flatMap (run isDecimalDigit)) ++ []).head? = _
    rw [List.flatMap_singleton, List.append_nil]
  · change (([_].flatMap (run isDecimalDigit)) ++ []).head? = _
    rw [List.flatMap_singleton, List.append_nil]
  · rename_i hplus hminus
    cases cs with
    | nil => rfl
    | cons c cs =>
      have hsign : seq sign (run isDecimalDigit) (c :: cs) = [] := by
        have hc : (c == '+' || c == '-') = false := by
          rw [Bool.or_eq_false_iff, beq_eq_false_iff_ne, beq_eq_false_iff_ne]
          exact ⟨fun h => hplus cs (h ▸ rfl), fun h => hminus cs (h ▸ rfl)⟩
        change List.flatMap _ (if (c == '+' || c == '-') = true then [cs] else []) = []
        rw [hc]
        rfl
      rw [hsign, List.nil_append]

theorem head?_exponent (cs : List Char) :
    (maybe exponent cs).head? = some (splitExponent cs).2 := by
  rw [head?_maybe]
  cases cs with
  | nil => rfl
  | cons c cs =>
    have hmark : exponent (c :: cs) =
        if c = 'e' ∨ c = 'E' then seq (maybe sign) (run isDecimalDigit) cs else [] := by
      change List.flatMap _ (if (c == 'e' || c == 'E') = true then [cs] else []) = _
      simp only [Bool.or_eq_true, beq_iff_eq]
      split
      · exact List.flatMap_singleton ..
      · rfl
    rw [hmark]
    dsimp only [splitExponent]
    by_cases hc : c = 'e' ∨ c = 'E'
    · rw [if_pos hc, head?_signed]
      by_cases hdigits : (splitSign cs).2.takeWhile isDecimalDigit = []
      · rw [if_pos hdigits, if_neg fun h => h.2 hdigits]
        rfl
      · rw [if_neg hdigits, if_pos ⟨hc, hdigits⟩]
        rfl
    · rw [if_neg hc, if_neg fun h => hc h.1]
      rfl

theorem head?_numeral (cs : List Char) :
    (Group.numeral.ways cs).head? = (numeral? cs).map (·.2) := by
  have hmaybe : ∀ cs, ((maybe exponent cs).head?).isSome := fun cs => by rw [head?_maybe]; rfl
  unfold Group.ways numeral?
  rw [head?_seq hmaybe, head?_mantissa]
  cases mantissa? cs with
  | none => rfl
  | some m => exact head?_exponent m.2

end points

end Ways

theorem isOperator_eq (c : Char) :
    (c == '+' || c == '-' || c == '*' || c == '/') = (Op.ofSymbol? c).isSome := by
  unfold Op.ofSymbol?
  split <;> simp_all

/-- The piece that is cut off a text is the first match of the alternatives. -/
theorem firstMatch?_eq (cs : List Char) :
    firstMatch? cs = (piece? cs).map fun p => (p.1.group, p.2.2) := by
  cases cs with
  | nil => rfl
  | cons c cs =>
    have hblank : (Group.blank.ways (c :: cs)).head? = _ := Ways.head?_one_many isBlank isBlank c cs
    have hlparen : (Group.lparen.ways (c :: cs)).head? = _ := Ways.head?_one (· == '(') c cs
    have hrparen : (Group.rparen.ways (c :: cs)).head? = _ := Ways.head?_one (· == ')') c cs
    have hop : (Group.op.ways (c :: cs)).head? = _ :=
      Ways.head?_one (fun c => c == '+' || c == '-' || c == '*' || c == '/') c cs
    have hword : (Group.word.ways (c :: cs)).head? = _ :=
      Ways.head?_one_many isWordStart isWordChar c cs
    unfold firstMatch? Group.all
    simp only [List.findSome?_cons, List.findSome?_nil, hblank, hlparen, hrparen, hop, hword,
      Ways.head?_numeral, isOperator_eq, beq_iff_eq, piece?]
    by_cases hb : isBlank c = true
    · rw [if_pos hb, if_pos hb]
      rfl
    rw [if_neg hb, if_neg hb]
    by_cases hl : c = '('
    · rw [if_pos hl, if_pos hl]
      rfl
    rw [if_neg hl, if_neg hl]
    by_cases hr : c = ')'
    · rw [if_pos hr, if_pos hr]
      rfl
    rw [if_neg hr, if_neg hr]
    cases Op.ofSymbol? c with
    | some o => rfl
    | none =>
      by_cases hw : isWordStart c = true
      · simp only [if_pos hw]
        rfl
      · simp only [if_neg hw]
        cases numeral? (c :: cs) <;> rfl

end Worksheet.Formula
