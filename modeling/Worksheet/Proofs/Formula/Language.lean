import Mathlib.Data.List.Chain
import Mathlib.Tactic.TFAE
import Worksheet.Proofs.Formula.Tree

set_option autoImplicit false

/-!
# The language of formulas

The token sequences that pass the check are those that keep the local rules, and those that have a parse
tree. None of them has two.
-/
namespace Worksheet.Formula

/-- Which tokens may stand one before the other: an operand is over before an operator or a closing
parenthesis, and one has to begin after an operator or an opening one. -/
def Token.MayPrecede (t u : Token) : Prop :=
  if t.closesTerm then u.continuesTerm = true else u.opensTerm = true

/-- No beginning closes more parentheses than it opens, and the whole closes all of them. -/
structure Balanced (ts : List Token) : Prop where
  beginning : ∀ n, (ts.take n).count .rparen ≤ (ts.take n).count .lparen
  whole : ts.count .rparen = ts.count .lparen

/-- The local rules on a token sequence. -/
structure Fits (ts : List Token) : Prop where
  first : ∃ t, ts.head? = some t ∧ t.opensTerm = true
  last : ∃ t, ts.getLast? = some t ∧ t.closesTerm = true
  balanced : Balanced ts
  neighbours : ts.IsChain Token.MayPrecede

section balance

theorem Balanced.append {ts us : List Token} (h : Balanced ts) (h' : Balanced us) :
    Balanced (ts ++ us) where
  beginning n := by
    rw [List.take_append, List.count_append, List.count_append]
    exact Nat.add_le_add (h.beginning n) (h'.beginning _)
  whole := by rw [List.count_append, List.count_append, h.whole, h'.whole]

theorem Balanced.parens {ts : List Token} (h : Balanced ts) :
    Balanced (.lparen :: (ts ++ [.rparen])) where
  beginning n := by
    cases n with
    | zero => exact Nat.le_refl _
    | succ n =>
      have hclose : ([Token.rparen].take (n - ts.length)).count .rparen ≤ 1 :=
        List.count_le_length.trans (List.length_take_le' _ _)
      have hinner := h.beginning n
      simp only [List.take_succ_cons, List.take_append, List.count_cons, List.count_append,
        beq_iff_eq, reduceCtorEq, ↓reduceIte]
      omega
  whole := by
    have hinner := h.whole
    simp only [List.count_cons, List.count_append, List.count_nil, beq_iff_eq, reduceCtorEq,
      ↓reduceIte]
    omega

theorem balanced_single {t : Token} (hopen : t ≠ .lparen) (hclose : t ≠ .rparen) : Balanced [t] where
  beginning n := by
    cases n with
    | zero => exact Nat.le_refl _
    | succ n => simp [hclose]
  whole := by simp [hopen, hclose]

end balance

section fits

theorem fits_single {t : Token} (hopens : t.opensTerm = true) (hcloses : t.closesTerm = true) :
    Fits [t] where
  first := ⟨t, rfl, hopens⟩
  last := ⟨t, rfl, hcloses⟩
  balanced := balanced_single (by rintro rfl; cases hcloses) (by rintro rfl; cases hopens)
  neighbours := List.isChain_singleton t

theorem Fits.binary {ts us : List Token} (h : Fits ts) (o : Op) (h' : Fits us) :
    Fits (ts ++ .op o :: us) := by
  obtain ⟨t, ht, hopens⟩ := h.first
  obtain ⟨u, hu, hcloses⟩ := h'.last
  refine ⟨⟨t, by simp [List.head?_append, ht], hopens⟩,
    ⟨u, by simp [List.getLast?_append, List.getLast?_cons, hu], hcloses⟩, ?_, ?_⟩
  · exact h.balanced.append ((balanced_single (t := .op o) nofun nofun).append h'.balanced)
  · refine List.isChain_append.2 ⟨h.neighbours, List.isChain_cons.2 ⟨?_, h'.neighbours⟩, ?_⟩
    · intro v hv
      obtain ⟨w, hw, hwopens⟩ := h'.first
      obtain rfl : w = v := Option.some.inj (hw.symm.trans hv)
      exact hwopens
    · intro v hv w hw
      obtain ⟨x, hx, hxcloses⟩ := h.last
      obtain rfl : x = v := Option.some.inj (hx.symm.trans hv)
      obtain rfl : Token.op o = w := Option.some.inj hw
      exact (if_pos hxcloses).mpr rfl

theorem Fits.parens {ts : List Token} (h : Fits ts) : Fits (.lparen :: (ts ++ [.rparen])) := by
  obtain ⟨t, ht, hopens⟩ := h.first
  obtain ⟨u, hu, hcloses⟩ := h.last
  refine ⟨⟨.lparen, rfl, rfl⟩, ⟨.rparen, by simp [List.getLast?_cons, List.getLast?_append], rfl⟩,
    h.balanced.parens, List.isChain_cons.2 ⟨?_, List.isChain_append.2 ⟨h.neighbours,
    List.isChain_singleton _, ?_⟩⟩⟩
  · intro v hv
    obtain rfl : t = v := by simpa [List.head?_append, ht] using hv
    exact hopens
  · intro v hv w hw
    obtain rfl : u = v := Option.some.inj (hu.symm.trans hv)
    obtain rfl : Token.rparen = w := Option.some.inj hw
    exact (if_pos hcloses).mpr rfl

theorem Tree.fits {r : Rank} (e : Tree r) : Fits e.tokens := by
  induction e with
  | num x => exact fits_single rfl rfl
  | var name => exact fits_single rfl rfl
  | parens e ih => exact ih.parens
  | operand f ih => exact ih
  | product t o _ f iht ihf => exact iht.binary o ihf
  | term t ih => exact ih
  | sum e o _ t ihe iht => exact ihe.binary o iht

end fits

section check

theorem Fits.checkEnds {ts : List Token} (h : Fits ts) : checkEnds ts = .ok () := by
  obtain ⟨t, ht, hopens⟩ := h.first
  obtain ⟨u, hu, hcloses⟩ := h.last
  simp [Formula.checkEnds, ht, hu, hopens, hcloses]

theorem checkBalance_of_counts {ts : List Token} {position opened closed : Nat}
    (hbeginning : ∀ n, closed + (ts.take n).count .rparen ≤ opened + (ts.take n).count .lparen)
    (hwhole : closed + ts.count .rparen = opened + ts.count .lparen) :
    checkBalance position opened closed ts = .ok () := by
  induction ts generalizing position opened closed with
  | nil => exact if_pos hwhole.symm
  | cons t ts ih =>
    cases t with
    | lparen =>
      refine ih (fun n => ?_) ?_
      · have hn := hbeginning (n + 1)
        simp only [List.take_succ_cons, List.count_cons, beq_iff_eq, reduceCtorEq, ↓reduceIte] at hn
        omega
      · simp only [List.count_cons, beq_iff_eq, reduceCtorEq, ↓reduceIte] at hwhole
        omega
    | rparen =>
      have hfirst : closed + 1 ≤ opened := hbeginning 1
      unfold checkBalance
      rw [if_neg (by omega)]
      refine ih (fun n => ?_) ?_
      · have hn := hbeginning (n + 1)
        simp only [List.take_succ_cons, List.count_cons, beq_iff_eq, reduceCtorEq, ↓reduceIte] at hn
        omega
      · simp only [List.count_cons, beq_iff_eq, reduceCtorEq, ↓reduceIte] at hwhole
        omega
    | op _ | var _ | num _ =>
      refine ih (fun n => ?_) ?_
      · simpa using hbeginning (n + 1)
      · simpa using hwhole

theorem checkNeighbours_of_isChain {ts : List Token} (h : ts.IsChain Token.MayPrecede) :
    checkNeighbours ts = .ok () := by
  induction ts with
  | nil => rfl
  | cons t ts ih =>
    cases ts with
    | nil => rfl
    | cons u ts =>
      obtain ⟨hpair, hrest⟩ := List.isChain_cons_cons.1 h
      have hchecked := ih hrest
      unfold Token.MayPrecede at hpair
      simp only [checkNeighbours]
      split at hpair
      · rename_i ht
        rw [if_pos ht, if_pos hpair]
        exact hchecked
      · rename_i ht
        rw [if_neg ht, if_pos hpair]
        exact hchecked

theorem Fits.check {ts : List Token} (h : Fits ts) : check ts = .ok () := by
  have hbalance : checkBalance 0 0 0 ts = .ok () :=
    checkBalance_of_counts (by simpa using h.balanced.beginning) (by simpa using h.balanced.whole)
  unfold Formula.check
  rw [h.checkEnds, hbalance, checkNeighbours_of_isChain h.neighbours]
  rfl

theorem Tree.check_tokens (e : Tree .sum) : check e.tokens = .ok () := e.fits.check

end check

/-- A token sequence passes the check exactly if it keeps the local rules, exactly if it is that of a sum,
and exactly if it is that of one sum only. -/
theorem check_tfae (ts : List Token) :
    [check ts = .ok (), Fits ts, ∃ e : Tree .sum, e.tokens = ts,
      ∃! e : Tree .sum, e.tokens = ts].TFAE := by
  tfae_have 1 → 3 := Tree.exists_tokens_of_check
  tfae_have 3 → 2
  | ⟨e, he⟩ => he ▸ e.fits
  tfae_have 2 → 1 := Fits.check
  tfae_have 3 → 4
  | ⟨e, he⟩ => ⟨e, he, fun e' he' => Tree.tokens_injective (he'.trans he.symm)⟩
  tfae_have 4 → 3 := ExistsUnique.exists
  tfae_finish

end Worksheet.Formula
