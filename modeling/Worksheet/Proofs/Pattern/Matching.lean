import Mathlib.Data.List.Basic
import Mathlib.Data.List.Dedup
import Mathlib.Data.Nat.Basic
import Worksheet.Pattern.Basic

set_option autoImplicit false

/-!
# What a pattern matches

The matches of a pattern in a text, by the form of the pattern and with no search. Moving a set of
positions finds them all, and repetitions without a greatest count are done when no position is new.
-/
namespace Worksheet.Pattern.Regex

def Steps (step : Nat → Nat → Prop) : Nat → Nat → Nat → Prop
  | 0, p, q => p = q
  | k + 1, p, q => ∃ m, step p m ∧ Steps step k m q

/-- A match that begins at one position of the text and ends at another. A greatest count below the
least one is not looked at. -/
def Matches (text : Array Char) : Regex → Nat → Nat → Prop
  | empty, p, q => p = q
  | oneOf cls, p, q => q = p + 1 ∧ ∃ c, text[p]? = some c ∧ cls c.toNat = true
  | look test, p, q => p = q ∧ test.holds (before text p) text[p]? = true
  | group r, p, q => r.Matches text p q
  | seq r s, p, q => ∃ m, r.Matches text p m ∧ s.Matches text m q
  | alt r s, p, q => r.Matches text p q ∨ s.Matches text p q
  | times r least greatest, p, q =>
    ∃ k, least ≤ k ∧ (∀ n, greatest = some n → k ≤ max n least) ∧ Steps (r.Matches text) k p q

def MatchesWhole (r : Regex) (text : String) : Prop :=
  r.Matches text.toList.toArray 0 text.length

section steps

variable {step : Nat → Nat → Prop} {size : Nat}

theorem Steps.add {j k p m q : Nat} (hfirst : Steps step j p m) (hrest : Steps step k m q) :
    Steps step (j + k) p q := by
  induction j generalizing p with
  | zero =>
    obtain rfl : p = m := hfirst
    rwa [Nat.zero_add]
  | succ j ih =>
    obtain ⟨p', hstep, hfirst⟩ := hfirst
    rw [Nat.succ_add]
    exact ⟨p', hstep, ih hfirst⟩

theorem Steps.split {j k p q : Nat} (h : Steps step (j + k) p q) :
    ∃ m, Steps step j p m ∧ Steps step k m q := by
  induction j generalizing p with
  | zero =>
    rw [Nat.zero_add] at h
    exact ⟨p, rfl, h⟩
  | succ j ih =>
    rw [Nat.succ_add] at h
    obtain ⟨p', hstep, h⟩ := h
    obtain ⟨m, hfirst, hrest⟩ := ih h
    exact ⟨m, ⟨p', hstep, hfirst⟩, hrest⟩

theorem Steps.bounds (hstep : ∀ p q, p ≤ size → step p q → p ≤ q ∧ q ≤ size) {k p q : Nat}
    (hp : p ≤ size) (h : Steps step k p q) : p ≤ q ∧ q ≤ size := by
  induction k generalizing p with
  | zero =>
    obtain rfl : p = q := h
    exact ⟨le_rfl, hp⟩
  | succ k ih =>
    obtain ⟨m, hfirst, hrest⟩ := h
    obtain ⟨hpm, hm⟩ := hstep p m hp hfirst
    obtain ⟨hmq, hq⟩ := ih hm hrest
    exact ⟨Nat.le_trans hpm hmq, hq⟩

theorem Steps.shorten (hstep : ∀ p q, p ≤ size → step p q → p ≤ q ∧ q ≤ size) {k p q : Nat}
    (hp : p ≤ size) (h : Steps step k p q) : ∃ j, j + p ≤ q ∧ Steps step j p q := by
  induction k generalizing p with
  | zero =>
    obtain rfl : p = q := h
    exact ⟨0, by omega, rfl⟩
  | succ k ih =>
    obtain ⟨m, hfirst, hrest⟩ := h
    obtain ⟨hpm, hm⟩ := hstep p m hp hfirst
    obtain ⟨j, hj, hsteps⟩ := ih hm hrest
    rcases Nat.eq_or_lt_of_le hpm with rfl | hlt
    · exact ⟨j, hj, hsteps⟩
    · exact ⟨j + 1, by omega, m, hfirst, hsteps⟩

end steps

theorem Matches.bounds {text : Array Char} {r : Regex} {p q : Nat} (hp : p ≤ text.size)
    (h : r.Matches text p q) : p ≤ q ∧ q ≤ text.size := by
  induction r generalizing p q with
  | empty =>
    obtain rfl : p = q := h
    exact ⟨le_rfl, hp⟩
  | oneOf cls =>
    obtain ⟨rfl, c, hc, -⟩ := h
    obtain ⟨hlt, -⟩ := Array.getElem?_eq_some_iff.1 hc
    exact ⟨p.le_succ, hlt⟩
  | look test =>
    obtain ⟨rfl, -⟩ := h
    exact ⟨le_rfl, hp⟩
  | group r ih => exact ih hp h
  | seq r s ihr ihs =>
    obtain ⟨m, hr, hs⟩ := h
    obtain ⟨hpm, hm⟩ := ihr hp hr
    obtain ⟨hmq, hq⟩ := ihs hm hs
    exact ⟨Nat.le_trans hpm hmq, hq⟩
  | alt r s ihr ihs =>
    rcases h with h | h
    · exact ihr hp h
    · exact ihs hp h
  | times r least greatest ih =>
    obtain ⟨k, -, -, hsteps⟩ := h
    exact hsteps.bounds (fun _ _ hp h => ih hp h) hp

section moves

variable {move : List Nat → List Nat} {step : Nat → Nat → Prop} {size : Nat}

/-- A move of sets of positions that makes every step, and no other ones. -/
def MakesSteps (size : Nat) (move : List Nat → List Nat) (step : Nat → Nat → Prop) : Prop :=
  ∀ ps, (∀ p ∈ ps, p ≤ size) → ∀ q, q ∈ move ps ↔ ∃ p ∈ ps, step p q

theorem MakesSteps.mem_le (hmove : MakesSteps size move step)
    (hstep : ∀ p q, p ≤ size → step p q → p ≤ q ∧ q ≤ size) {ps : List Nat}
    (hps : ∀ p ∈ ps, p ≤ size) : ∀ q ∈ move ps, q ≤ size := by
  intro q hq
  obtain ⟨p, hp, h⟩ := (hmove ps hps q).1 hq
  exact (hstep p q (hps p hp) h).2

theorem makesSteps_exactly (hmove : MakesSteps size move step)
    (hstep : ∀ p q, p ≤ size → step p q → p ≤ q ∧ q ≤ size) (k : Nat) :
    MakesSteps size (exactly move k) (Steps step k) := by
  intro ps hps q
  induction k generalizing ps with
  | zero =>
    change q ∈ ps ↔ ∃ p ∈ ps, p = q
    simp only [exists_eq_right]
  | succ k ih =>
    unfold exactly
    split
    · rename_i hempty
      simp [hempty]
    · rw [ih (move ps) (hmove.mem_le hstep hps)]
      constructor
      · rintro ⟨m, hm, hrest⟩
        obtain ⟨p, hp, hfirst⟩ := (hmove ps hps m).1 hm
        exact ⟨p, hp, m, hfirst, hrest⟩
      · rintro ⟨p, hp, m, hfirst, hrest⟩
        exact ⟨m, (hmove ps hps m).2 ⟨p, hp, hfirst⟩, hrest⟩

/-- No step leads out of positions to which a move adds nothing. -/
theorem MakesSteps.mem_of_steps (hmove : MakesSteps size move step) {ps : List Nat}
    (hps : ∀ p ∈ ps, p ≤ size) (hclosed : ∀ q ∈ move ps, q ∈ ps) {k p q : Nat} (hp : p ∈ ps)
    (h : Steps step k p q) : q ∈ ps := by
  induction k generalizing p with
  | zero =>
    obtain rfl : p = q := h
    exact hp
  | succ k ih =>
    obtain ⟨m, hfirst, hrest⟩ := h
    exact ih (hclosed m ((hmove ps hps m).2 ⟨p, hp, hfirst⟩)) hrest

theorem makesSteps_upTo (hmove : MakesSteps size move step)
    (hstep : ∀ p q, p ≤ size → step p q → p ≤ q ∧ q ≤ size) (n : Nat) :
    MakesSteps size (upTo move n) fun p q => ∃ k ≤ n, Steps step k p q := by
  intro ps hps q
  induction n generalizing ps with
  | zero =>
    constructor
    · intro hq
      exact ⟨q, hq, 0, le_rfl, rfl⟩
    · rintro ⟨p, hp, k, hk, h⟩
      obtain rfl := Nat.le_zero.1 hk
      obtain rfl : p = q := h
      exact hp
  | succ n ih =>
    have hmem : ∀ m, m ∈ (move ps).filter (fun p => !ps.contains p) ↔ m ∈ move ps ∧ m ∉ ps := by
      intro m
      rw [List.mem_filter, Bool.not_eq_true', List.contains_eq_mem, decide_eq_false_iff_not]
    unfold upTo
    dsimp only
    generalize (move ps).filter (fun p => !ps.contains p) = new at hmem ⊢
    split
    · rename_i hnew
      have hclosed : ∀ m ∈ move ps, m ∈ ps := by
        intro m hm
        by_contra hnot
        have hmem' := (hmem m).2 ⟨hm, hnot⟩
        rw [hnew] at hmem'
        exact List.not_mem_nil hmem'
      constructor
      · intro hq
        exact ⟨q, hq, 0, Nat.zero_le _, rfl⟩
      · rintro ⟨p, hp, k, -, h⟩
        exact hmove.mem_of_steps hps hclosed hp h
    · have hall : ∀ m, m ∈ ps ++ new.eraseDups ↔ m ∈ ps ∨ m ∈ move ps := by
        intro m
        rw [List.mem_append, List.mem_eraseDups, hmem m]
        tauto
      have hbound : ∀ m ∈ ps ++ new.eraseDups, m ≤ size := by
        intro m hm
        rcases (hall m).1 hm with hm | hm
        · exact hps m hm
        · exact hmove.mem_le hstep hps m hm
      rw [ih _ hbound]
      constructor
      · rintro ⟨m, hm, k, hk, hrest⟩
        rcases (hall m).1 hm with hm | hm
        · exact ⟨m, hm, k, by omega, hrest⟩
        · obtain ⟨p, hp, hfirst⟩ := (hmove ps hps m).1 hm
          exact ⟨p, hp, k + 1, by omega, m, hfirst, hrest⟩
      · rintro ⟨p, hp, k, hk, h⟩
        cases k with
        | zero => exact ⟨p, (hall p).2 (.inl hp), 0, Nat.zero_le _, h⟩
        | succ k =>
          obtain ⟨m, hfirst, hrest⟩ := h
          have hm := (hmove ps hps m).2 ⟨p, hp, hfirst⟩
          exact ⟨m, (hall m).2 (.inr hm), k, by omega, hrest⟩

end moves

/-- The positions that are reached are the ends of the matches. -/
theorem makesSteps_advance (text : Array Char) (r : Regex) :
    MakesSteps text.size (r.advance text) (r.Matches text) := by
  induction r with
  | empty =>
    intro ps _ q
    change q ∈ ps ↔ ∃ p ∈ ps, p = q
    simp only [exists_eq_right]
  | oneOf cls =>
    intro ps _ q
    unfold advance
    rw [List.mem_filterMap]
    refine exists_congr fun p => and_congr_right fun _ => ?_
    change _ ↔ q = p + 1 ∧ ∃ c, text[p]? = some c ∧ cls c.toNat = true
    cases text[p]? with
    | none => simp
    | some c =>
      rw [Option.ite_none_right_eq_some]
      constructor
      · rintro ⟨hc, h⟩
        exact ⟨(Option.some.inj h).symm, c, rfl, hc⟩
      · rintro ⟨rfl, c', h, hc⟩
        obtain rfl := Option.some.inj h
        exact ⟨hc, rfl⟩
  | look test =>
    intro ps _ q
    unfold advance
    rw [List.mem_filter]
    change _ ↔ ∃ p ∈ ps, p = q ∧ test.holds (before text p) text[p]? = true
    constructor
    · rintro ⟨hq, htest⟩
      exact ⟨q, hq, rfl, htest⟩
    · rintro ⟨p, hp, rfl, htest⟩
      exact ⟨hp, htest⟩
  | group r ih => exact ih
  | seq r s ihr ihs =>
    intro ps hps q
    change q ∈ s.advance text (r.advance text ps) ↔ _
    rw [ihs _ (ihr.mem_le (fun _ _ hp h => h.bounds hp) hps)]
    constructor
    · rintro ⟨m, hm, hs⟩
      obtain ⟨p, hp, hr⟩ := (ihr ps hps m).1 hm
      exact ⟨p, hp, m, hr, hs⟩
    · rintro ⟨p, hp, m, hr, hs⟩
      exact ⟨m, (ihr ps hps m).2 ⟨p, hp, hr⟩, hs⟩
  | alt r s ihr ihs =>
    intro ps hps q
    change q ∈ (r.advance text ps ++ s.advance text ps).eraseDups ↔ _
    rw [List.mem_eraseDups, List.mem_append, ihr ps hps, ihs ps hps]
    constructor
    · rintro (⟨p, hp, h⟩ | ⟨p, hp, h⟩)
      · exact ⟨p, hp, .inl h⟩
      · exact ⟨p, hp, .inr h⟩
    · rintro ⟨p, hp, h | h⟩
      · exact .inl ⟨p, hp, h⟩
      · exact .inr ⟨p, hp, h⟩
  | times r least greatest ih =>
    intro ps hps q
    have hbounds : ∀ p q, p ≤ text.size → r.Matches text p q → p ≤ q ∧ q ≤ text.size :=
      fun _ _ hp h => h.bounds hp
    have hleast := makesSteps_exactly ih hbounds least
    have hmore := makesSteps_upTo ih hbounds
    have hreach := hleast.mem_le (fun _ _ hp h => h.bounds hbounds hp) hps
    change q ∈ upTo (r.advance text) _ (exactly (r.advance text) least ps) ↔ _
    rw [hmore _ _ hreach]
    constructor
    · rintro ⟨m, hm, k, hk, hrest⟩
      obtain ⟨p, hp, hfirst⟩ := (hleast ps hps m).1 hm
      refine ⟨p, hp, least + k, by omega, ?_, hfirst.add hrest⟩
      rintro n rfl
      replace hk : k ≤ n - least := hk
      omega
    · rintro ⟨p, hp, k, hk, hgreatest, h⟩
      obtain ⟨j, rfl⟩ := Nat.exists_eq_add_of_le hk
      obtain ⟨m, hfirst, hrest⟩ := h.split
      refine ⟨m, (hleast ps hps m).2 ⟨p, hp, hfirst⟩, ?_⟩
      cases greatest with
      | some n =>
        have hn := hgreatest n rfl
        exact ⟨j, show j ≤ n - least by omega, hrest⟩
      | none =>
        have hm := (hfirst.bounds hbounds (hps p hp)).2
        have hq := (hrest.bounds hbounds hm).2
        obtain ⟨i, hi, hshort⟩ := hrest.shorten hbounds hm
        exact ⟨i, show i ≤ text.size + 1 by omega, hshort⟩

theorem before_eq_none {text : Array Char} {p : Nat} (hp : p ≤ text.size) :
    before text p = none ↔ p = 0 := by
  unfold before
  split
  · rename_i hzero
    exact ⟨fun _ => hzero, fun _ => rfl⟩
  · rename_i hpos
    rw [Array.getElem?_eq_none_iff]
    omega

/-- Between the two ends of the text, a pattern is found exactly if it matches the whole text. -/
theorem occursIn_between_ends (r : Regex) (text : String) :
    (seq (look .textStart) (seq (group r) (look .textEnd))).occursIn text = true ↔
      r.MatchesWhole text := by
  have hsize : text.toList.toArray.size = text.length := by
    rw [List.size_toArray, String.length_toList]
  unfold occursIn MatchesWhole
  generalize text.toList.toArray = cs at hsize ⊢
  have hps : ∀ p ∈ List.range (cs.size + 1), p ≤ cs.size := fun p hp =>
    Nat.lt_succ_iff.1 (List.mem_range.1 hp)
  dsimp only
  rw [Bool.not_eq_true', ← Bool.not_eq_true, List.isEmpty_iff, List.eq_nil_iff_forall_not_mem,
    not_forall_not]
  constructor
  · rintro ⟨q, hq⟩
    obtain ⟨p, hp, _, ⟨rfl, hstart⟩, _, hr, rfl, hend⟩ := (makesSteps_advance cs _ _ hps q).1 hq
    obtain rfl := (before_eq_none (hps p hp)).1 (Option.isNone_iff_eq_none.1 hstart)
    have hbounds := hr.bounds (hps _ hp)
    have hlast := Array.getElem?_eq_none_iff.1 (Option.isNone_iff_eq_none.1 hend)
    rwa [← hsize, ← Nat.le_antisymm hbounds.2 hlast]
  · intro hr
    rw [← hsize] at hr
    refine ⟨cs.size, (makesSteps_advance cs _ _ hps _).2 ⟨0, List.mem_range.2 (Nat.succ_pos _), 0,
      ⟨rfl, rfl⟩, cs.size, hr, rfl, ?_⟩⟩
    exact Option.isNone_iff_eq_none.2 (Array.getElem?_eq_none_iff.2 le_rfl)

end Worksheet.Pattern.Regex
