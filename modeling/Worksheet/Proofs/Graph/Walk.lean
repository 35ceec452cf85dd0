import Mathlib.Algebra.GroupWithZero.Nat
import Mathlib.Data.List.Chain
import Mathlib.Data.List.Nodup
import Mathlib.Logic.Relation
import Mathlib.Tactic.Tauto
import Worksheet.Graph.Order

set_option autoImplicit false

/-!
# What the walk finds

The walk from a key ends, within the steps allowed to it, with an order of all the keys that the first
key reaches, or with a loop through the first key, and it ends with a loop exactly when there is one.
Loops that avoid the first key are walked past.
-/
namespace Worksheet
open Relation

section

variable {κ : Type}

/-- A key is among the direct dependents of another. -/
def Follows (next : κ → List κ) (u v : κ) : Prop := v ∈ next u

/-- A loop through `start`: direct dependents from `start` on, no key twice, and the last one has
`start` among its dependents. -/
structure IsLoop (next : κ → List κ) (start : κ) (path : List κ) : Prop where
  closed : path.getLast? = some start
  begins : path.dropLast.head? = some start
  nodup : path.dropLast.Nodup
  chain : path.dropLast.IsChain (Follows next)
  returns : ∃ k, path.dropLast.getLast? = some k ∧ Follows next k start

/-- All keys that `start` reaches, once each, `start` first, and every key before those of its
dependents that do not lead back to it. -/
structure IsOrder (next : κ → List κ) (start : κ) (order : List κ) : Prop where
  begins : order.head? = some start
  nodup : order.Nodup
  mem_iff : ∀ k, k ∈ order ↔ ReflTransGen (Follows next) start k
  sorted : ∀ a u b, order = a ++ u :: b → ∀ v, Follows next u v →
    v ∈ b ∨ ReflTransGen (Follows next) v u

/-- A result of the walk that fits the graph: an order when `start` is on no loop, else a loop. -/
def Answers (next : κ → List κ) (start : κ) : Except (Loop κ) (List κ) → Prop
  | .ok order => ¬TransGen (Follows next) start start ∧ IsOrder next start order
  | .error loop => IsLoop next start loop.path

theorem reaches_of_chain {next : κ → List κ} {start k : κ} {keys : List κ}
    (hc : keys.IsChain (Follows next)) (hs : keys.head? = some start) (hk : k ∈ keys) :
    ReflTransGen (Follows next) start k := by
  induction keys generalizing start with
  | nil => simp at hk
  | cons u keys ih =>
    obtain rfl : u = start := by simpa using hs
    rcases List.mem_cons.1 hk with rfl | hk
    · exact .refl
    · cases keys with
      | nil => simp at hk
      | cons v keys =>
        have hc := List.isChain_cons_cons.1 hc
        exact .head hc.1 (ih hc.2 rfl hk)

theorem IsLoop.transGen {next : κ → List κ} {start : κ} {path : List κ}
    (h : IsLoop next start path) : TransGen (Follows next) start start := by
  obtain ⟨k, hk, hs⟩ := h.returns
  exact .tail' (reaches_of_chain h.chain h.begins (List.mem_of_getLast? hk)) hs

/-- Where there are no loops, a key of an order comes before all its dependents. -/
theorem IsOrder.mem_before {next : κ → List κ} {start : κ} {order a b : List κ} {u v : κ}
    (h : IsOrder next start order) (hloop : ∀ k, ¬TransGen (Follows next) k k)
    (hab : order = a ++ u :: b) (hv : v ∈ order) (hvu : Follows next v u) : v ∈ a := by
  have hmem := hv
  rw [hab, List.mem_append, List.mem_cons] at hmem
  rcases hmem with ha | rfl | hb
  · exact ha
  · exact absurd (.single hvu) (hloop v)
  · obtain ⟨c, d, rfl⟩ := List.append_of_mem hb
    rcases h.sorted (a ++ u :: c) v d (by simpa using hab) u hvu with hu | hu
    · have hnodup := h.nodup
      rw [hab] at hnodup
      have honce := (List.nodup_cons.1 (List.nodup_append.1 hnodup).2.1).1
      exact absurd (by simp [hu]) honce
    · exact absurd (TransGen.trans_right hu (.single hvu)) (hloop u)

end

namespace Walk

section

variable {κ : Type} {next : κ → List κ} {start : κ} {w : Walk κ}

def trail (w : Walk κ) : List κ := w.path.map Prod.fst

/-- What holds of a walk between two steps. Every dependent of a key that was met is still to be
visited or was met, and none of those met through a key is `start`. -/
structure Valid (next : κ → List κ) (start : κ) (w : Walk κ) : Prop where
  chain : w.trail.IsChain fun v u => Follows next u v
  ends : ∀ k, w.trail.getLast? = some k → k = start
  nodup : (w.trail ++ w.finished).Nodup
  met_iff : ∀ k, k ∈ w.met ↔ k ∈ w.trail ∨ k ∈ w.finished
  reached : ∀ k ∈ w.met, ReflTransGen (Follows next) start k
  waiting : ∀ f ∈ w.path, ∀ v ∈ f.2, Follows next f.1 v
  visited : ∀ f ∈ w.path, ∀ v, Follows next f.1 v → v ∈ f.2 ∨ (v ∈ w.met ∧ v ≠ start)
  closed : ∀ u ∈ w.finished, ∀ v, Follows next u v → v ∈ w.met ∧ v ≠ start
  sorted : ∀ a u b, w.finished = a ++ u :: b → ∀ v, Follows next u v →
    v ∈ b ∨ ReflTransGen (Follows next) v u
  begins : w.path = [] → w.finished.head? = some start

theorem begin_valid (next : κ → List κ) (start : κ) : Valid next start (begin next start) := by
  refine ⟨?_, ?_, ?_, ?_, ?_, ?_, ?_, ?_, ?_, ?_⟩ <;> simp [begin, trail, Follows]
  exact .refl

theorem Valid.reaches_innermost (h : Valid next start w) {k : κ} {ns : List κ}
    {path : List (κ × List κ)} (hp : w.path = (k, ns) :: path) {v : κ} (hv : v ∈ w.trail) :
    ReflTransGen (Follows next) v k := by
  have hc := h.chain
  have trail_eq : w.trail = k :: path.map Prod.fst := by simp [trail, hp]
  rw [trail_eq] at hc hv
  clear trail_eq hp
  induction path generalizing k with
  | nil => simp at hv; exact hv ▸ .refl
  | cons f path ih =>
    rw [List.map_cons] at hc hv
    have hc := List.isChain_cons_cons.1 hc
    rcases List.mem_cons.1 hv with rfl | hv
    · exact .refl
    · exact (ih hv hc.2).tail hc.1

theorem Valid.finish (h : Valid next start w) {k : κ} {path : List (κ × List κ)}
    (hp : w.path = (k, []) :: path) : Valid next start ⟨path, w.met, k :: w.finished⟩ := by
  have trail_eq : w.trail = k :: path.map Prod.fst := by simp [trail, hp]
  have below {f : κ × List κ} (hf : f ∈ path) : f ∈ w.path := by simp [hp, hf]
  have visited : ∀ v, Follows next k v → v ∈ w.met ∧ v ≠ start := by
    intro v hv
    simpa using h.visited (k, []) (by simp [hp]) v hv
  refine ⟨?_, ?_, ?_, ?_, h.reached, fun f hf => h.waiting f (below hf),
    fun f hf => h.visited f (below hf), ?_, ?_, ?_⟩
  · have hc := h.chain
    rw [trail_eq] at hc
    exact hc.tail
  · intro u hu
    refine h.ends u ?_
    change (path.map Prod.fst).getLast? = some u at hu
    rw [trail_eq, List.getLast?_cons, hu]
    rfl
  · have hn := h.nodup
    rw [trail_eq] at hn
    exact (List.perm_middle.nodup_iff).2 hn
  · intro u
    have hm := h.met_iff u
    rw [trail_eq] at hm
    simp only [trail, List.mem_cons] at hm ⊢
    tauto
  · intro u hu
    rcases List.mem_cons.1 hu with rfl | hu
    · exact visited
    · exact h.closed u hu
  · intro a u b hab v hv
    cases a with
    | nil =>
      obtain ⟨rfl, rfl⟩ : k = u ∧ w.finished = b := by simpa using hab
      rcases (h.met_iff v).1 (visited v hv).1 with ht | hf
      · exact .inr (h.reaches_innermost hp ht)
      · exact .inl hf
    | cons x a =>
      obtain ⟨-, hab⟩ : k = x ∧ w.finished = a ++ u :: b := by simpa using hab
      exact h.sorted a u b hab v hv
  · intro he
    have hk : k = start := h.ends k (by simp [trail_eq, show path = [] from he])
    simp [hk]

theorem Valid.skip (h : Valid next start w) {k n : κ} {ns : List κ} {path : List (κ × List κ)}
    (hp : w.path = (k, n :: ns) :: path) (hn : n ≠ start) (hm : n ∈ w.met) :
    Valid next start ⟨(k, ns) :: path, w.met, w.finished⟩ := by
  have trail_eq : w.trail = trail ⟨(k, ns) :: path, w.met, w.finished⟩ := by simp [trail, hp]
  refine ⟨trail_eq ▸ h.chain, trail_eq ▸ h.ends, trail_eq ▸ h.nodup, trail_eq ▸ h.met_iff, h.reached,
    ?_, ?_, h.closed, h.sorted, by simp⟩
  · intro f hf
    rcases List.mem_cons.1 hf with rfl | hf
    · intro v hv
      exact h.waiting (k, n :: ns) (by simp [hp]) v (List.mem_cons_of_mem n hv)
    · exact h.waiting f (by simp [hp, hf])
  · intro f hf
    rcases List.mem_cons.1 hf with rfl | hf
    · intro v hv
      rcases h.visited (k, n :: ns) (by simp [hp]) v hv with hw | hv
      · rcases List.mem_cons.1 hw with rfl | hw
        · exact .inr ⟨hm, hn⟩
        · exact .inl hw
      · exact .inr hv
    · exact h.visited f (by simp [hp, hf])

theorem Valid.enter (h : Valid next start w) {k n : κ} {ns : List κ} {path : List (κ × List κ)}
    (hp : w.path = (k, n :: ns) :: path) (hn : n ≠ start) (hm : n ∉ w.met) :
    Valid next start ⟨(n, next n) :: (k, ns) :: path, n :: w.met, w.finished⟩ := by
  have trail_eq : w.trail = k :: path.map Prod.fst := by simp [trail, hp]
  have hkn : Follows next k n := h.waiting (k, n :: ns) (by simp [hp]) n (by simp)
  have hk : k ∈ w.met := (h.met_iff k).2 (.inl (by simp [trail_eq]))
  have older {v : κ} (hv : v ∈ w.met ∧ v ≠ start) : v ∈ n :: w.met ∧ v ≠ start :=
    ⟨List.mem_cons_of_mem n hv.1, hv.2⟩
  refine ⟨?_, ?_, ?_, ?_, ?_, ?_, ?_, fun u hu v hv => older (h.closed u hu v hv), h.sorted, by simp⟩
  · have hc := h.chain
    rw [trail_eq] at hc
    exact List.isChain_cons_cons.2 ⟨hkn, hc⟩
  · intro u hu
    refine h.ends u ?_
    rw [trail_eq]
    exact (List.getLast?_cons_cons).symm.trans hu
  · have hfresh : n ∉ w.trail ++ w.finished := by
      rw [List.mem_append, ← h.met_iff]
      exact hm
    have hc := List.nodup_cons.2 ⟨hfresh, h.nodup⟩
    rw [trail_eq] at hc
    exact hc
  · intro u
    have hu := h.met_iff u
    rw [trail_eq] at hu
    simp only [trail, List.map_cons, List.mem_cons] at hu ⊢
    tauto
  · intro u hu
    rcases List.mem_cons.1 hu with rfl | hu
    · exact (h.reached k hk).tail hkn
    · exact h.reached u hu
  · intro f hf v hv
    rcases List.mem_cons.1 hf with rfl | hf
    · exact hv
    rcases List.mem_cons.1 hf with rfl | hf
    · exact h.waiting (k, n :: ns) (by simp [hp]) v (List.mem_cons_of_mem n hv)
    · exact h.waiting f (by simp [hp, hf]) v hv
  · intro f hf v hv
    rcases List.mem_cons.1 hf with rfl | hf
    · exact .inl hv
    rcases List.mem_cons.1 hf with rfl | hf
    · rcases h.visited (k, n :: ns) (by simp [hp]) v hv with hw | hv
      · rcases List.mem_cons.1 hw with rfl | hw
        · exact .inr ⟨by simp, hn⟩
        · exact .inl hw
      · exact .inr (older hv)
    · exact (h.visited f (by simp [hp, hf]) v hv).imp_right older

theorem Valid.loop (h : Valid next start w) {k : κ} {ns : List κ} {path : List (κ × List κ)}
    (hp : w.path = (k, start :: ns) :: path) : IsLoop next start (w.trail.reverse ++ [start]) := by
  have trail_eq : w.trail = k :: path.map Prod.fst := by simp [trail, hp]
  have hne : w.trail ≠ [] := by simp [trail_eq]
  refine ⟨by simp, ?_, ?_, ?_, k, ?_, h.waiting (k, start :: ns) (by simp [hp]) start (by simp)⟩
  · rw [List.dropLast_concat, List.head?_reverse, List.getLast?_eq_some_getLast hne]
    exact congrArg some (h.ends _ (List.getLast?_eq_some_getLast hne))
  · rw [List.dropLast_concat, List.nodup_reverse]
    exact (List.nodup_append.1 h.nodup).1
  · rw [List.dropLast_concat, List.isChain_reverse]
    exact h.chain
  · rw [List.dropLast_concat, List.getLast?_reverse, trail_eq]
    rfl

theorem Valid.order (h : Valid next start w) (hp : w.path = []) :
    ¬TransGen (Follows next) start start ∧ IsOrder next start w.finished := by
  have met_iff (k : κ) : k ∈ w.met ↔ k ∈ w.finished := by
    rw [h.met_iff]
    simp [trail, hp]
  have hs := h.begins hp
  have reached_mem {k : κ} (hk : ReflTransGen (Follows next) start k) : k ∈ w.finished := by
    induction hk with
    | refl => exact List.mem_of_head? hs
    | tail _ hv ih => exact (met_iff _).1 (h.closed _ ih _ hv).1
  refine ⟨?_, hs, (List.nodup_append.1 h.nodup).2.1, ?_, h.sorted⟩
  · intro hl
    obtain ⟨k, hk, hl⟩ := TransGen.tail'_iff.1 hl
    exact (h.closed k (reached_mem hk) start hl).2 rfl
  · intro k
    exact ⟨fun hk => h.reached k ((met_iff k).2 hk), reached_mem⟩

end

variable {κ : Type} [DecidableEq κ] {next : κ → List κ} {start : κ} {w : Walk κ}

/-- One step of a valid walk ends it with a fitting result or leads to a valid walk. -/
theorem Valid.step (h : Valid next start w) :
    (∃ w', w.step next start = .inl w' ∧ Valid next start w') ∨
      ∃ r, w.step next start = .inr r ∧ Answers next start r := by
  cases hp : w.path with
  | nil => exact .inr ⟨.ok w.finished, by simp [Walk.step, hp], h.order hp⟩
  | cons f path =>
    obtain ⟨k, ns⟩ := f
    cases ns with
    | nil => exact .inl ⟨_, by simp [Walk.step, hp], h.finish hp⟩
    | cons n ns =>
      by_cases hn : n = start
      · subst hn
        refine .inr ⟨.error ⟨w.trail.reverse ++ [n]⟩, ?_, h.loop hp⟩
        simp [Walk.step, hp, trail]
      · by_cases hm : n ∈ w.met
        · exact .inl ⟨_, by simp [Walk.step, hp, hn, hm], h.skip hp hn hm⟩
        · exact .inl ⟨_, by simp [Walk.step, hp, hn, hm], h.enter hp hn hm⟩

/-- A number that every step makes smaller: what is still to be visited on the path, and what the
keys not yet met will ask for. -/
def due (next : κ → List κ) (keys : List κ) (w : Walk κ) : Nat :=
  (w.path.map fun f => f.2.length + 1).sum + walkLength next (keys.filter (· ∉ w.met))

omit [DecidableEq κ] in
theorem walkLength_pos (next : κ → List κ) (keys : List κ) : 0 < walkLength next keys := by
  cases keys with
  | nil => exact Nat.one_pos
  | cons k keys => exact Nat.add_pos_left (Nat.succ_pos _) _

omit [DecidableEq κ] in
theorem walkLength_le_of_sublist (next : κ → List κ) {keys keys' : List κ}
    (h : keys.Sublist keys') : walkLength next keys ≤ walkLength next keys' := by
  induction h with
  | slnil => exact Nat.le_refl _
  | cons k _ ih =>
    refine ih.trans ?_
    change _ ≤ (next k).length + 1 + _
    omega
  | cons_cons k _ ih => exact Nat.add_le_add_left ih _

theorem walkLength_meet (next : κ → List κ) {keys met : List κ} {n : κ} (hn : n ∈ keys)
    (hm : n ∉ met) : walkLength next (keys.filter (· ∉ n :: met)) + ((next n).length + 1) ≤
      walkLength next (keys.filter (· ∉ met)) := by
  induction keys with
  | nil => simp at hn
  | cons k keys ih =>
    by_cases hk : k = n
    · subst hk
      have fewer : (keys.filter (· ∉ k :: met)).Sublist (keys.filter (· ∉ met)) := by
        refine List.monotone_filter_right keys fun x hx => ?_
        simp only [decide_eq_true_eq, List.mem_cons, not_or] at hx ⊢
        exact hx.2
      have hle := walkLength_le_of_sublist next fewer
      rw [List.filter_cons_of_neg (by simp), List.filter_cons_of_pos (by simpa using hm)]
      change _ ≤ (next k).length + 1 + walkLength next (keys.filter (· ∉ met))
      omega
    · have hle := ih ((List.mem_cons.1 hn).resolve_left (Ne.symm hk))
      by_cases hkm : k ∈ met
      · simpa [List.filter_cons, hk, hkm] using hle
      · rw [List.filter_cons_of_pos (by simp [hk, hkm]), List.filter_cons_of_pos (by simpa using hkm)]
        change (next k).length + 1 + walkLength next (keys.filter (· ∉ n :: met)) + _ ≤
          (next k).length + 1 + walkLength next (keys.filter (· ∉ met))
        omega

theorem due_begin (next : κ → List κ) {keys : List κ} (hs : start ∈ keys) :
    due next keys (begin next start) ≤ walkLength next keys := by
  have h := walkLength_meet next hs (List.not_mem_nil (a := start))
  have all : keys.filter (· ∉ ([] : List κ)) = keys := List.filter_eq_self.2 fun k _ => by simp
  rw [all] at h
  change ((next start).length + 1 + 0) + walkLength next (keys.filter (· ∉ [start])) ≤ _
  omega

theorem due_step {keys : List κ} {w' : Walk κ} (h : w.step next start = .inl w')
    (hk : ∀ k ∈ w'.met, k ∈ keys) : due next keys w' < due next keys w := by
  cases hp : w.path with
  | nil => simp [Walk.step, hp] at h
  | cons f path =>
    obtain ⟨k, ns⟩ := f
    cases ns with
    | nil =>
      obtain rfl : ⟨path, w.met, k :: w.finished⟩ = w' := by simpa [Walk.step, hp] using h
      simp only [due, hp, List.map_cons, List.sum_cons, List.length_nil]
      omega
    | cons n ns =>
      by_cases hn : n = start
      · simp [Walk.step, hp, hn] at h
      by_cases hm : n ∈ w.met
      · obtain rfl : ⟨(k, ns) :: path, w.met, w.finished⟩ = w' := by
          simpa [Walk.step, hp, hn, hm] using h
        simp only [due, hp, List.map_cons, List.sum_cons, List.length_cons]
        omega
      · obtain rfl : ⟨(n, next n) :: (k, ns) :: path, n :: w.met, w.finished⟩ = w' := by
          simpa [Walk.step, hp, hn, hm] using h
        have hle := walkLength_meet next (hk n (by simp)) hm
        simp only [due, hp, List.map_cons, List.sum_cons, List.length_cons]
        omega

/-- A valid walk ends with a fitting result in as many steps as are due. -/
theorem Valid.run {keys : List κ} (hk : ∀ k, ReflTransGen (Follows next) start k → k ∈ keys)
    {n : Nat} (h : Valid next start w) (hn : due next keys w ≤ n) :
    ∃ r, w.run next start n = some r ∧ Answers next start r := by
  -- each step lowers what is due, which is never zero, so the allowed steps suffice
  induction n generalizing w with
  | zero =>
    have hpos := walkLength_pos next (keys.filter (· ∉ w.met))
    unfold due at hn
    omega
  | succ n ih =>
    rcases h.step with ⟨w', hw, h'⟩ | ⟨r, hr, ha⟩
    · have hlt := due_step hw fun k hm => hk k (h'.reached k hm)
      obtain ⟨r, hr, ha⟩ := ih h' (by omega)
      exact ⟨r, by simpa only [Walk.run, hw] using hr, ha⟩
    · exact ⟨r, by simp only [Walk.run, hr], ha⟩

end Walk

section

variable {κ : Type} [DecidableEq κ]

theorem run_recalculationOrder (next : κ → List κ) (keys : List κ) (start : κ)
    (hk : ∀ k, ReflTransGen (Follows next) start k → k ∈ start :: keys) :
    (Walk.begin next start).run next start (walkLength next (start :: keys)) =
        some (recalculationOrder next keys start) ∧
      Answers next start (recalculationOrder next keys start) := by
  obtain ⟨r, hr, ha⟩ := (Walk.begin_valid next start).run hk
    (Walk.due_begin next (List.mem_cons_self (a := start) (l := keys)))
  rw [recalculationOrder, hr]
  exact ⟨rfl, ha⟩

theorem recalculationOrder_answers (next : κ → List κ) (keys : List κ) (start : κ)
    (hk : ∀ k, ReflTransGen (Follows next) start k → k ∈ start :: keys) :
    Answers next start (recalculationOrder next keys start) :=
  (run_recalculationOrder next keys start hk).2

end
end Worksheet
