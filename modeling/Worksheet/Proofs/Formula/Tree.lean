import Worksheet.Formula.Grammar

set_option autoImplicit false

/-!
# Parse trees of formulas

A sum is a product, or a sum, an additive operator and a product; a product is an operand, or a product,
a multiplicative operator and an operand; an operand is a number, a variable or a sum in parentheses.
The local check on tokens accepts exactly the token sequences of sums, and no two sums have one token
sequence.
-/
namespace Worksheet.Formula

inductive Rank where
  | sum
  | product
  | operand

def Op.isAdditive : Op → Bool
  | .add | .sub => true
  | .mul | .div => false

inductive Tree : Rank → Type where
  | num (x : Float) : Tree .operand
  | var (name : String) : Tree .operand
  | parens (e : Tree .sum) : Tree .operand
  | operand (f : Tree .operand) : Tree .product
  | product (t : Tree .product) (o : Op) (h : o.isAdditive = false) (f : Tree .operand) : Tree .product
  | term (t : Tree .product) : Tree .sum
  | sum (e : Tree .sum) (o : Op) (h : o.isAdditive = true) (t : Tree .product) : Tree .sum

namespace Tree

def tokens : {r : Rank} → Tree r → List Token
  | _, num x => [.num x]
  | _, var name => [.var name]
  | _, parens e => .lparen :: (e.tokens ++ [.rparen])
  | _, operand f => f.tokens
  | _, product t o _ f => t.tokens ++ .op o :: f.tokens
  | _, term t => t.tokens
  | _, sum e o _ t => e.tokens ++ .op o :: t.tokens

/-- A sum with an operator after it, or nothing. -/
abbrev SumBegun := Option (Tree .sum × { o : Op // o.isAdditive = true })

abbrev ProductBegun := Option (Tree .product × { o : Op // o.isAdditive = false })

/-- What was read of a sum that is not complete where the next operand is missing. -/
structure Begun where
  sum : SumBegun
  product : ProductBegun

/-- What is complete with the product or the operand that is read next. -/
def sumWith : SumBegun → Tree .product → Tree .sum
  | some (e, o), t => .sum e o o.2 t
  | none, t => .term t

def productWith : ProductBegun → Tree .operand → Tree .product
  | some (t, o), f => .product t o o.2 f
  | none, f => .operand f

mutual

/-- Read on where an operand has to follow, inside the sums `outer` that are open further out. -/
def readOperand (outer : List Begun) (b : Begun) : List Token → Option (Tree .sum)
  | .num x :: ts => readOn outer b.sum (productWith b.product (.num x)) ts
  | .var name :: ts => readOn outer b.sum (productWith b.product (.var name)) ts
  | .lparen :: ts => readOperand (b :: outer) ⟨none, none⟩ ts
  | _ => none

def readOn (outer : List Begun) (s : SumBegun) (t : Tree .product) :
    List Token → Option (Tree .sum)
  | [] => if outer.isEmpty then some (sumWith s t) else none
  | .rparen :: ts =>
    match outer with
    | [] => none
    | b :: outer => readOn outer b.sum (productWith b.product (.parens (sumWith s t))) ts
  | .op o :: ts =>
    if h : o.isAdditive then readOperand outer ⟨some (sumWith s t, ⟨o, h⟩), none⟩ ts
    else readOperand outer ⟨s, some (t, ⟨o, by simpa using h⟩)⟩ ts
  | _ => none

end

def read? (ts : List Token) : Option (Tree .sum) := readOperand [] ⟨none, none⟩ ts

section soundness

def SumBegun.tokens : SumBegun → List Token
  | some (e, o) => e.tokens ++ [.op o]
  | none => []

def ProductBegun.tokens : ProductBegun → List Token
  | some (t, o) => t.tokens ++ [.op o]
  | none => []

def before : List Begun → List Token
  | [] => []
  | b :: outer => before outer ++ (b.sum.tokens ++ (b.product.tokens ++ [.lparen]))

theorem tokens_sumWith (s : SumBegun) (t : Tree .product) :
    (sumWith s t).tokens = s.tokens ++ t.tokens := by
  cases s <;> simp [sumWith, tokens, SumBegun.tokens]

theorem tokens_productWith (p : ProductBegun) (f : Tree .operand) :
    (productWith p f).tokens = p.tokens ++ f.tokens := by
  cases p <;> simp [productWith, tokens, ProductBegun.tokens]

/-- Both readers account for all tokens, those before and those they read. -/
theorem read_sound (ts : List Token) (e : Tree .sum) (outer : List Begun) :
    (∀ b, readOperand outer b ts = some e →
      e.tokens = before outer ++ (b.sum.tokens ++ (b.product.tokens ++ ts))) ∧
    (∀ s t, readOn outer s t ts = some e →
      e.tokens = before outer ++ (s.tokens ++ (t.tokens ++ ts))) := by
  induction ts generalizing outer with
  | nil =>
    refine ⟨fun b h => by simp [readOperand] at h, fun s t h => ?_⟩
    cases outer with
    | nil =>
      obtain rfl : sumWith s t = e := by simpa [readOn] using h
      simp [before, tokens_sumWith]
    | cons b outer => simp [readOn] at h
  | cons u ts ih =>
    constructor
    · intro b h
      cases u with
      | num x =>
        rw [(ih outer).2 _ _ (by simpa only [readOperand] using h), tokens_productWith]
        simp [tokens]
      | var name =>
        rw [(ih outer).2 _ _ (by simpa only [readOperand] using h), tokens_productWith]
        simp [tokens]
      | lparen =>
        rw [(ih (b :: outer)).1 _ (by simpa only [readOperand] using h)]
        simp [before, SumBegun.tokens, ProductBegun.tokens]
      | rparen | op _ => simp [readOperand] at h
    · intro s t h
      cases u with
      | rparen =>
        cases outer with
        | nil => simp [readOn] at h
        | cons b outer =>
          rw [(ih outer).2 _ _ (by simpa only [readOn] using h), tokens_productWith]
          simp [before, tokens, tokens_sumWith]
      | op o =>
        by_cases ho : o.isAdditive
        · simp only [readOn, ho, ↓reduceDIte] at h
          rw [(ih outer).1 _ h]
          simp [SumBegun.tokens, ProductBegun.tokens, tokens_sumWith]
        · simp only [readOn, ho, Bool.false_eq_true, ↓reduceDIte] at h
          rw [(ih outer).1 _ h]
          simp [ProductBegun.tokens]
      | lparen | num _ | var _ => simp [readOn] at h

end soundness

section completeness

/-- The readers rebuild a tree from its tokens, whatever follows them. -/
def ReadsBack : (r : Rank) → Tree r → Prop
  | .operand, f => ∀ outer b rest, readOperand outer b (f.tokens ++ rest) =
      readOn outer b.sum (productWith b.product f) rest
  | .product, t => ∀ outer s rest, readOperand outer ⟨s, none⟩ (t.tokens ++ rest) =
      readOn outer s t rest
  | .sum, e => ∀ outer rest, ∃ s t, sumWith s t = e ∧
      readOperand outer ⟨none, none⟩ (e.tokens ++ rest) = readOn outer s t rest

theorem readsBack {r : Rank} (e : Tree r) : ReadsBack r e := by
  induction e with
  | num x => exact fun outer b rest => by simp [tokens, readOperand]
  | var name => exact fun outer b rest => by simp [tokens, readOperand]
  | parens e ih =>
    intro outer b rest
    obtain ⟨s, t, he, hread⟩ := ih (b :: outer) (.rparen :: rest)
    simp only [tokens, List.cons_append, List.append_assoc, List.nil_append, readOperand, hread,
      readOn, he]
  | operand f ih =>
    intro outer s rest
    exact ih outer ⟨s, none⟩ rest
  | product t o ho f iht ihf =>
    intro outer s rest
    have hread := iht outer s (.op o :: (f.tokens ++ rest))
    simp only [tokens, List.append_assoc, List.cons_append, hread, readOn, ho, Bool.false_eq_true,
      ↓reduceDIte]
    exact ihf outer _ rest
  | term t ih => exact fun outer rest => ⟨none, t, rfl, ih outer none rest⟩
  | sum e o ho t ihe iht =>
    intro outer rest
    obtain ⟨s', t', he, hread⟩ := ihe outer (.op o :: (t.tokens ++ rest))
    refine ⟨some (e, ⟨o, ho⟩), t, rfl, ?_⟩
    simp only [tokens, List.append_assoc, List.cons_append, hread, readOn, ho, ↓reduceDIte, he]
    exact iht outer _ rest

end completeness

theorem read?_eq_some_iff (ts : List Token) (e : Tree .sum) : read? ts = some e ↔ e.tokens = ts := by
  constructor
  · intro h
    simpa [before, SumBegun.tokens, ProductBegun.tokens] using (read_sound ts e []).1 ⟨none, none⟩ h
  · rintro rfl
    obtain ⟨s, t, he, hread⟩ := readsBack e [] []
    rw [List.append_nil] at hread
    change readOperand [] ⟨none, none⟩ e.tokens = some e
    rw [hread, ← he]
    rfl

theorem tokens_injective {e e' : Tree .sum} (h : e.tokens = e'.tokens) : e = e' :=
  Option.some.inj (((read?_eq_some_iff _ e).2 rfl).symm.trans ((read?_eq_some_iff _ e').2 h.symm))

section check

theorem check_eq_ok {ts : List Token} (h : check ts = .ok ()) :
    checkEnds ts = .ok () ∧ checkBalance 0 0 0 ts = .ok () ∧ checkNeighbours ts = .ok () := by
  unfold check at h
  cases he : checkEnds ts with
  | error e => simp [he, bind, Except.bind] at h
  | ok _ =>
    cases hb : checkBalance 0 0 0 ts with
    | error e => simp [he, hb, bind, Except.bind] at h
    | ok _ => exact ⟨rfl, rfl, by simpa [he, hb, bind, Except.bind] using h⟩

theorem checkEnds_eq_ok {ts : List Token} (h : checkEnds ts = .ok ()) :
    (∃ t, ts.head? = some t ∧ t.opensTerm = true) ∧
      ∀ t, ts.getLast? = some t → t.closesTerm = true := by
  unfold checkEnds at h
  split at h
  · rename_i first last hf hl
    split at h
    · cases h
    split at h
    · cases h
    · rename_i h1 h2
      refine ⟨⟨first, hf, by simpa using h1⟩, fun t ht => ?_⟩
      obtain rfl : last = t := Option.some.inj (hl.symm.trans ht)
      simpa using h2
  · cases h

theorem checkNeighbours_cons {u : Token} {ts : List Token}
    (h : checkNeighbours (u :: ts) = .ok ()) : checkNeighbours ts = .ok () ∧
      (u.closesTerm = true → ∀ t, ts.head? = some t → t.continuesTerm = true) ∧
      (u.closesTerm = false → ∀ t, ts.head? = some t → t.opensTerm = true) := by
  cases ts with
  | nil => exact ⟨rfl, by simp, by simp⟩
  | cons v ts =>
    simp only [checkNeighbours] at h
    by_cases hu : u.closesTerm
    · by_cases hv : v.continuesTerm
      · exact ⟨by simpa [hu, hv] using h, by simp [hv], by simp [hu]⟩
      · simp [hu, hv] at h
    · by_cases hv : v.opensTerm
      · exact ⟨by simpa [hu, hv] using h, by simp [hu], by simp [hv]⟩
      · simp [hu, hv] at h

/-- What is left of checked tokens where they are cut. -/
structure Remainder (ts : List Token) : Prop where
  neighbours : checkNeighbours ts = .ok ()
  last : ∀ t, ts.getLast? = some t → t.closesTerm = true

/-- After the end of an operand the tokens go on or stop, and elsewhere an operand has to follow. -/
theorem Remainder.tail {u : Token} {ts : List Token} (h : Remainder (u :: ts)) : Remainder ts ∧
    (u.closesTerm = true → ∀ t, ts.head? = some t → t.continuesTerm = true) ∧
    (u.closesTerm = false → ∃ t, ts.head? = some t ∧ t.opensTerm = true) := by
  obtain ⟨hrest, hclose, hopen⟩ := checkNeighbours_cons h.neighbours
  refine ⟨⟨hrest, fun t ht => h.last t ?_⟩, hclose, fun hu => ?_⟩
  · rw [List.getLast?_cons, ht]
    rfl
  · cases ts with
    | nil => simp [h.last u rfl] at hu
    | cons v ts => exact ⟨v, rfl, hopen hu v rfl⟩

/-- Tokens that fit locally are read to the end: `outer` has one open sum for each parenthesis that is
still to be closed. -/
theorem read_of_checked (ts : List Token) (outer : List Begun) (position closed : Nat)
    (h : Remainder ts)
    (hb : checkBalance position (closed + outer.length) closed ts = .ok ()) :
    ((∃ t, ts.head? = some t ∧ t.opensTerm = true) → ∀ b, ∃ e, readOperand outer b ts = some e) ∧
    ((∀ t, ts.head? = some t → t.continuesTerm = true) → ∀ s t, ∃ e, readOn outer s t ts = some e) := by
  induction ts generalizing outer position closed with
  | nil =>
    refine ⟨by simp, fun _ s t => ?_⟩
    have ho : outer = [] := by simpa [checkBalance] using hb
    exact ⟨sumWith s t, by simp [ho, readOn]⟩
  | cons u ts ih =>
    obtain ⟨hrest, hclose, hopen⟩ := h.tail
    constructor
    · rintro ⟨t, ht, hopens⟩ b
      obtain rfl : u = t := by simpa using ht
      cases u with
      | num x =>
        obtain ⟨e, he⟩ := (ih outer (position + 1) closed hrest hb).2 (hclose rfl) b.sum
          (productWith b.product (.num x))
        exact ⟨e, by simpa only [readOperand] using he⟩
      | var name =>
        obtain ⟨e, he⟩ := (ih outer (position + 1) closed hrest hb).2 (hclose rfl) b.sum
          (productWith b.product (.var name))
        exact ⟨e, by simpa only [readOperand] using he⟩
      | lparen =>
        obtain ⟨e, he⟩ := (ih (b :: outer) (position + 1) closed hrest hb).1 (hopen rfl)
          ⟨none, none⟩
        exact ⟨e, by simpa only [readOperand] using he⟩
      | rparen | op _ => simp [Token.opensTerm] at hopens
    · intro hcont s t
      have hcont := hcont u rfl
      cases u with
      | rparen =>
        cases outer with
        | nil => simp [checkBalance] at hb
        | cons b outer =>
          have hb' : checkBalance (position + 1) (closed + 1 + outer.length) (closed + 1) ts =
              .ok () := by
            simp only [checkBalance, List.length_cons] at hb
            rw [if_neg (by omega)] at hb
            rw [← hb]
            congr 1
            omega
          obtain ⟨e, he⟩ := (ih outer (position + 1) (closed + 1) hrest hb').2 (hclose rfl) b.sum
            (productWith b.product (.parens (sumWith s t)))
          exact ⟨e, by simpa only [readOn] using he⟩
      | op o =>
        have hop := (ih outer (position + 1) closed hrest hb).1 (hopen rfl)
        by_cases ho : o.isAdditive
        · obtain ⟨e, he⟩ := hop ⟨some (sumWith s t, ⟨o, ho⟩), none⟩
          exact ⟨e, by simpa only [readOn, ho, ↓reduceDIte] using he⟩
        · obtain ⟨e, he⟩ := hop ⟨s, some (t, ⟨o, by simpa using ho⟩)⟩
          exact ⟨e, by simpa only [readOn, ho, Bool.false_eq_true, ↓reduceDIte] using he⟩
      | lparen | num _ | var _ => simp [Token.continuesTerm] at hcont

theorem remainder_of_check {ts : List Token} (h : check ts = .ok ()) : Remainder ts := by
  obtain ⟨hends, -, hneighbours⟩ := check_eq_ok h
  exact ⟨hneighbours, (checkEnds_eq_ok hends).2⟩

theorem exists_tokens_of_check {ts : List Token} (h : check ts = .ok ()) :
    ∃ e : Tree .sum, e.tokens = ts := by
  obtain ⟨hends, hbalance, -⟩ := check_eq_ok h
  obtain ⟨e, he⟩ := (read_of_checked ts [] 0 0 (remainder_of_check h) hbalance).1
    (checkEnds_eq_ok hends).1 ⟨none, none⟩
  exact ⟨e, (read?_eq_some_iff ts e).1 he⟩

end check

end Tree
end Worksheet.Formula
