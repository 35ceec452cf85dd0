import Mathlib.Data.List.Basic
import Worksheet.Pattern.Reader

set_option autoImplicit false

/-!
# Readers before a closing text

A pattern is put into a group, so its readers find a closing parenthesis where the pattern ends. A steady
reader does there what it does at the end. It may go wrong in one way only: what the pattern leaves
open can go on in the closing text, and then that is no longer there to close the group. Where the
pattern ends in a comment, the closing text is a part of it.
-/
namespace Worksheet.Pattern
open Read

/-- What is put behind a pattern: the end of a group, and the end of the text. -/
def closing : List Char := [')', '$']

def Scan.closed (s : Scan) : Scan := { s with rest := s.rest ++ closing }

/-- A place in a pattern, and the place there when the closing text follows, or is skipped already. -/
inductive Follows : Scan → Scan → Prop
  | closed (s : Scan) : Follows s s.closed
  | ended {s : Scan} (h : s.rest = []) : Follows s s

/-- The closing text has been entered, and a number of its characters taken. -/
def Past (k : Nat) (v : Scan) : Prop :=
  v.rest <:+ closing ∧ v.rest.length + k ≤ closing.length

section

variable {α β : Type}

/-- What a reader gives for a pattern, and for the pattern with the closing text. Where only the second
one gives a value, that and the place behind it are as described. -/
inductive Alike (lost : α → Scan → Prop) : Option (α × Scan) → Option (α × Scan) → Prop
  | both {a : α} {u u' : Scan} (h : Follows u u') : Alike lost (some (a, u)) (some (a, u'))
  | alone {o : Option (α × Scan)} (h : ∀ a v, o = some (a, v) → lost a v) : Alike lost none o

/-- Where at least `d` characters are left, the reader takes at least `e` of them. -/
def Takes (d e : Nat) (f : Read α) : Prop :=
  ∀ s a u, d ≤ s.rest.length → f s = some (a, u) →
    u.rest <:+ s.rest ∧ u.rest.length + e ≤ s.rest.length

/-- The second reader does before the closing text what the first one does at the end of a pattern.
There are at least `d` characters left, fewer than `n` for the one and fewer than `m` for the other. -/
structure Steady (d n m e : Nat) (lost : α → Scan → Prop) (f f' : Read α) : Prop where
  left : Takes d e f
  right : Takes d e f'
  alike : ∀ {s s'}, Follows s s' → d ≤ s.rest.length → s.rest.length < n → s'.rest.length < m →
    Alike lost (f s) (f' s')

theorem bind_apply (f : Read α) (g : α → Read β) (s : Scan) :
    (f >>= g) s = (f s).bind fun r => g r.1 r.2 := rfl

theorem bind_eq_some {f : Read α} {g : α → Read β} {s w : Scan} {b : β} :
    (f >>= g) s = some (b, w) ↔ ∃ a u, f s = some (a, u) ∧ g a u = some (b, w) := by
  rw [bind_apply, Option.bind_eq_some_iff, Prod.exists]

theorem peek_bind (g : Option Char → Read β) (s : Scan) : (peek >>= g) s = g s.rest.head? s := rfl

theorem need_nil {s : Scan} (h : s.rest = []) : need s = none := by
  obtain ⟨rest, flags, names⟩ := s
  obtain rfl : rest = [] := h
  rfl

theorem need_cons {s : Scan} {c : Char} {cs : List Char} (h : s.rest = c :: cs) :
    need s = some (c, s) := by
  obtain ⟨rest, flags, names⟩ := s
  obtain rfl : rest = c :: cs := h
  rfl

theorem need_eq_some {s u : Scan} {c : Char} :
    need s = some (c, u) ↔ u = s ∧ s.rest.head? = some c := by
  cases hrest : s.rest with
  | nil =>
    rw [need_nil hrest]
    simp
  | cons c' cs =>
    rw [need_cons hrest]
    simp [eq_comm, and_comm]

end

namespace Follows

variable {s s' : Scan}

theorem flags_eq (h : Follows s s') : s'.flags = s.flags := by
  cases h with
  | closed => rfl
  | ended => rfl

theorem names_eq (h : Follows s s') : s'.names = s.names := by
  cases h with
  | closed => rfl
  | ended => rfl

theorem length_le (h : Follows s s') : s.rest.length ≤ s'.rest.length := by
  cases h with
  | closed =>
    change s.rest.length ≤ (s.rest ++ closing).length
    rw [List.length_append]
    exact Nat.le_add_right _ _
  | ended => exact Nat.le_refl _

theorem eq_closed (h : Follows s s') (hpos : 1 ≤ s.rest.length) : s' = s.closed := by
  cases h with
  | closed => rfl
  | ended hend => simp [hend] at hpos

theorem rest_ne_nil (s : Scan) : s.closed.rest ≠ [] := by
  change s.rest ++ closing ≠ []
  exact List.append_ne_nil_of_right_ne_nil _ (List.cons_ne_nil _ _)

theorem left_unique {t v : Scan} (hs : Follows s v) (ht : Follows t v) : s = t := by
  cases hs with
  | closed =>
    generalize hv : s.closed = v at ht
    cases ht with
    | closed =>
      obtain ⟨hrest, hflags, hnames⟩ := Scan.mk.inj hv
      obtain ⟨rest, flags, names⟩ := s
      obtain ⟨rest', flags', names'⟩ := t
      obtain rfl : rest = rest' := List.append_cancel_right hrest
      obtain rfl : flags = flags' := hflags
      obtain rfl : names = names' := hnames
      rfl
    | ended hend =>
      rw [← hv] at hend
      exact absurd hend (rest_ne_nil s)
  | ended hs =>
    cases ht with
    | closed => exact absurd hs (rest_ne_nil t)
    | ended => rfl

end Follows

theorem Past.mono {j k : Nat} {v : Scan} (h : Past k v) (hj : j ≤ k) : Past j v :=
  ⟨h.1, Nat.le_trans (Nat.add_le_add_left hj _) h.2⟩

theorem Past.add {e k : Nat} {v w : Scan} (h : Past k v)
    (hw : w.rest <:+ v.rest ∧ w.rest.length + e ≤ v.rest.length) : Past (k + e) w := by
  refine ⟨hw.1.trans h.1, ?_⟩
  have hv := h.2
  omega

namespace Takes

variable {α β : Type} {d e : Nat} {f : Read α} {g : α → Read β}

theorem pure (a : α) : Takes d 0 (Pure.pure a : Read α) := by
  intro s b u _ h
  obtain ⟨-, rfl⟩ := Prod.mk.inj (Option.some.inj h)
  exact ⟨List.suffix_rfl, Nat.le_refl _⟩

theorem failure : Takes d e (failure : Read α) := by
  intro s b u _ h
  cases h

theorem mono {d' e' : Nat} (h : Takes d e f) (hd : d ≤ d') (he : e' ≤ e) : Takes d' e' f := by
  intro s a u hs hf
  obtain ⟨hsuffix, hlength⟩ := h s a u (Nat.le_trans hd hs) hf
  exact ⟨hsuffix, by omega⟩

theorem bind {e₁ e₂ : Nat} (hf : Takes d e₁ f) (hg : ∀ a, Takes 0 e₂ (g a)) :
    Takes d (e₁ + e₂) (f >>= g) := by
  intro s b w hs h
  obtain ⟨a, u, hfirst, hrest⟩ := bind_eq_some.1 h
  obtain ⟨hu, hulength⟩ := hf s a u hs hfirst
  obtain ⟨hw, hwlength⟩ := hg a u b w (Nat.zero_le _) hrest
  exact ⟨hw.trans hu, by omega⟩

theorem need {g : Char → Read β} (hg : ∀ c, Takes 1 e (g c)) : Takes d e (Read.need >>= g) := by
  intro s b w _ h
  cases hrest : s.rest with
  | nil =>
    rw [bind_apply, need_nil hrest] at h
    cases h
  | cons c cs =>
    rw [bind_apply, need_cons hrest] at h
    rw [← hrest]
    exact hg c s b w (by simp [hrest]) h

theorem get {g : Scan → Read β} (hg : ∀ s, d ≤ s.rest.length → Takes d e (g s)) :
    Takes d e (MonadState.get >>= g) :=
  fun s b w hs h => hg s hs s b w hs h

theorem peek {g : Option Char → Read β} (hsome : ∀ c, Takes 1 e (g (some c)))
    (hnone : Takes 0 e (g none)) : Takes d e (Read.peek >>= g) := by
  intro s b w _ h
  replace h : g s.rest.head? s = some (b, w) := h
  cases hrest : s.rest with
  | nil =>
    rw [hrest] at h
    rw [← hrest]
    exact hnone s b w (Nat.zero_le _) h
  | cons c cs =>
    rw [hrest] at h
    rw [← hrest]
    exact hsome c s b w (by simp [hrest]) h

theorem modify {move : Scan → Scan}
    (h : ∀ s, d ≤ s.rest.length →
      (move s).rest <:+ s.rest ∧ (move s).rest.length + e ≤ s.rest.length) :
    Takes d e (modify move) := by
  intro s a u hs hmove
  obtain ⟨-, rfl⟩ := Prod.mk.inj (Option.some.inj hmove)
  exact h s hs

end Takes

namespace Alike

variable {α β : Type} {f f' : Read α} {g g' : α → Read β} {s s' : Scan}
  {lost₁ : α → Scan → Prop} {lost : β → Scan → Prop}

theorem mono {o o' : Option (α × Scan)} {lost lost' : α → Scan → Prop} (h : Alike lost o o')
    (hlost : ∀ a v, lost a v → lost' a v) : Alike lost' o o' := by
  cases h with
  | both h => exact .both h
  | alone h => exact .alone fun a v ho => hlost a v (h a v ho)

theorem bind (h : Alike lost₁ (f s) (f' s'))
    (hboth : ∀ a u u', f s = some (a, u) → f' s' = some (a, u') → Follows u u' →
      Alike lost (g a u) (g' a u'))
    (hlost : ∀ a v, lost₁ a v → ∀ b w, g' a v = some (b, w) → lost b w) :
    Alike lost ((f >>= g) s) ((f' >>= g') s') := by
  rw [bind_apply, bind_apply]
  revert h hboth
  generalize f s = o, f' s' = o'
  intro h hboth
  cases h with
  | both hfollows => exact hboth _ _ _ rfl rfl hfollows
  | alone h =>
    refine .alone fun b w hresult => ?_
    obtain ⟨⟨a, v⟩, rfl, hrest⟩ := Option.bind_eq_some_iff.1 hresult
    exact hlost a v (h a v rfl) b w hrest

end Alike

namespace Steady

variable {α β : Type} {d n m e k : Nat} {f f' : Read α} {lost : α → Scan → Prop}

theorem pure (a : α) : Steady d n m 0 lost (Pure.pure a) (Pure.pure a) :=
  ⟨.pure a, .pure a, fun h _ _ _ => .both h⟩

theorem failure : Steady d n m e lost (failure : Read α) failure :=
  ⟨.failure, .failure, fun _ _ _ _ => .alone fun _ _ h => nomatch h⟩

theorem mono {d' e' : Nat} {lost' : α → Scan → Prop} (h : Steady d n m e lost f f') (hd : d ≤ d')
    (he : e' ≤ e) (hlost : ∀ a v, lost a v → lost' a v) : Steady d' n m e' lost' f f' :=
  ⟨h.left.mono hd he, h.right.mono hd he, fun hfollows hs hn hm =>
    (h.alike hfollows (Nat.le_trans hd hs) hn hm).mono hlost⟩

theorem ite_of_iff {c c' : Prop} [Decidable c] [Decidable c'] {g g' : Read α} (hc : c' ↔ c)
    (hf : c → Steady d n m e lost f f') (hg : ¬c → Steady d n m e lost g g') :
    Steady d n m e lost (if c then f else g) (if c' then f' else g') := by
  by_cases h : c
  · rw [if_pos h, if_pos (hc.2 h)]
    exact hf h
  · rw [if_neg h, if_neg (mt hc.1 h)]
    exact hg h

theorem ite {c : Prop} [Decidable c] {g g' : Read α} (hf : c → Steady d n m e lost f f')
    (hg : ¬c → Steady d n m e lost g g') :
    Steady d n m e lost (if c then f else g) (if c then f' else g') :=
  ite_of_iff Iff.rfl hf hg

section bind

variable {g g' : α → Read β} {e₁ e₂ n₂ m₂ : Nat} {lost₁ : α → Scan → Prop} {lost : β → Scan → Prop}

/-- What the first reader takes, the bounds for the second one are lower by. -/
theorem bind_of_lost (hf : Steady d n m e₁ lost₁ f f')
    (hg : ∀ a, Steady 0 n₂ m₂ e₂ lost (g a) (g' a)) (hn : n ≤ n₂ + e₁) (hm : m ≤ m₂ + e₁)
    (he : e ≤ e₁ + e₂) (hlost : ∀ a v, lost₁ a v → ∀ b w, g' a v = some (b, w) → lost b w) :
    Steady d n m e lost (f >>= g) (f' >>= g') := by
  refine ⟨(hf.left.bind fun a => (hg a).left).mono (Nat.le_refl _) he,
    (hf.right.bind fun a => (hg a).right).mono (Nat.le_refl _) he,
    fun {s s'} hfollows hs hsn hsm =>
      (hf.alike hfollows hs hsn hsm).bind (fun a u u' hu hu' h => ?_) hlost⟩
  have hlength := (hf.left s a u hs hu).2
  have hlength' := (hf.right s' a u' (Nat.le_trans hs hfollows.length_le) hu').2
  exact (hg a).alike h (Nat.zero_le _) (by omega) (by omega)

theorem bind_of_past (hf : Steady d n m e₁ (fun _ => Past k) f f')
    (hg : ∀ a, Steady 0 n₂ m₂ e₂ lost (g a) (g' a)) (hn : n ≤ n₂ + e₁) (hm : m ≤ m₂ + e₁)
    (he : e ≤ e₁ + e₂) (hlost : ∀ b w, Past (k + e₂) w → lost b w) :
    Steady d n m e lost (f >>= g) (f' >>= g') :=
  bind_of_lost hf hg hn hm he fun a v hv b w hw =>
    hlost b w (hv.add ((hg a).right v b w (Nat.zero_le _) hw))

theorem stay (hf : Steady d n m e₁ (fun _ _ => False) f f')
    (hg : ∀ a, Steady 0 n m e lost (g a) (g' a)) : Steady d n m e lost (f >>= g) (f' >>= g') :=
  bind_of_lost hf hg (Nat.le_add_right _ _) (Nat.le_add_right _ _) (Nat.le_add_left _ _)
    fun _ _ h => h.elim

theorem advance (hf : Steady d n m 1 (fun _ _ => False) f f')
    (hg : ∀ a, Steady 0 (n - 1) (m - 1) e lost (g a) (g' a)) :
    Steady d n m (e + 1) lost (f >>= g) (f' >>= g') :=
  bind_of_lost hf hg (by omega) (by omega) (by omega) fun _ _ h => h.elim

theorem step (hf : Steady d n m 1 (fun _ _ => False) f f')
    (hg : ∀ a, Steady 0 (n - 1) (m - 1) e lost (g a) (g' a)) :
    Steady d n m e lost (f >>= g) (f' >>= g') :=
  (advance hf hg).mono (Nat.le_refl _) (Nat.le_succ _) fun _ _ h => h

end bind

section past

variable {g g' : α → Read β}

theorem bind (hf : Steady d n m e (fun _ => Past k) f f')
    (hg : ∀ a, Steady 0 (n - e) (m - e) 0 (fun _ => Past k) (g a) (g' a)) :
    Steady d n m e (fun _ => Past k) (f >>= g) (f' >>= g') :=
  bind_of_past hf hg (by omega) (by omega) (Nat.le_refl _) fun _ _ h => h

/-- What is lost before the closing text enters it with the next character. -/
theorem bind_taking {e₁ : Nat} (hf : Steady d n m e₁ (fun _ => Past 0) f f')
    (hg : ∀ a, Steady 0 (n - e₁) (m - e₁) 1 (fun _ => Past 1) (g a) (g' a)) :
    Steady d n m 1 (fun _ => Past 1) (f >>= g) (f' >>= g') :=
  bind_of_past hf hg (by omega) (by omega) (Nat.le_add_left _ _) fun _ _ h => h

theorem of_le {d' : Nat} {lost : α → Scan → Prop} (h : Steady d n m e lost f f') (hd : d ≤ d') :
    Steady d' n m e lost f f' :=
  h.mono hd (Nat.le_refl _) fun _ _ h => h

theorem lower {n' m' : Nat} {lost : α → Scan → Prop} (h : Steady d n m e lost f f') (hn : n' ≤ n)
    (hm : m' ≤ m) : Steady d n' m' e lost f f' :=
  ⟨h.left, h.right, fun hfollows hs hsn hsm =>
    h.alike hfollows hs (Nat.lt_of_lt_of_le hsn hn) (Nat.lt_of_lt_of_le hsm hm)⟩

theorem weaken {lost : α → Scan → Prop} (h : Steady d n m e lost f f') : Steady d n m 0 lost f f' :=
  h.mono (Nat.le_refl _) (Nat.zero_le _) fun _ _ h => h

end past

section observed

variable {lost : β → Scan → Prop}

theorem need {g g' : Char → Read β} (hg : ∀ c, Steady 1 n m e lost (g c) (g' c))
    (hlost : ∀ b w, Past e w → lost b w) :
    Steady d n m e lost (Read.need >>= g) (Read.need >>= g') := by
  refine ⟨.need fun c => (hg c).left, .need fun c => (hg c).right,
    fun {s s'} hfollows hs hn hm => ?_⟩
  cases hrest : s.rest with
  | nil =>
    have hfirst : (Read.need >>= g) s = none := by rw [bind_apply, need_nil hrest]; rfl
    rw [hfirst]
    refine .alone fun b w h => hlost b w ?_
    have htakes := Takes.need (d := 0) (fun c => (hg c).right) s' b w (Nat.zero_le _) h
    cases hfollows with
    | closed =>
      have hclosed : s.closed.rest = closing := by simp [Scan.closed, hrest]
      rwa [hclosed] at htakes
    | ended =>
      rw [bind_apply, need_nil hrest] at h
      cases h
  | cons c cs =>
    have hpos : 1 ≤ s.rest.length := by simp [hrest]
    obtain rfl := hfollows.eq_closed hpos
    have hrest' : s.closed.rest = c :: (cs ++ closing) := by simp [Scan.closed, hrest]
    rw [bind_apply, bind_apply, need_cons hrest, need_cons hrest']
    exact (hg c).alike hfollows hpos hn hm

/-- The end of a pattern, and the closing parenthesis in its place, are looked at but not taken. -/
theorem peek {g g' : Option Char → Read β}
    (hsome : ∀ c, Steady 1 n m e lost (g (some c)) (g' (some c)))
    (hnone : Steady 0 n m e lost (g none) (g' none))
    (hclose : Steady 0 n m e lost (g none) (g' (some ')'))) :
    Steady d n m e lost (Read.peek >>= g) (Read.peek >>= g') := by
  refine ⟨.peek (fun c => (hsome c).left) hnone.left, .peek (fun c => (hsome c).right) hnone.right,
    fun {s s'} hfollows hs hn hm => ?_⟩
  change Alike lost (g s.rest.head? s) (g' s'.rest.head? s')
  cases hfollows with
  | ended h =>
    rw [h]
    exact hnone.alike (.ended h) (Nat.zero_le _) hn hm
  | closed =>
    cases hrest : s.rest with
    | nil =>
      have hhead : s.closed.rest.head? = some ')' := by simp [Scan.closed, hrest, closing]
      rw [hhead]
      exact hclose.alike (.closed s) (Nat.zero_le _) hn hm
    | cons c cs =>
      have hhead : s.closed.rest.head? = some c := by simp [Scan.closed, hrest]
      rw [hhead]
      exact (hsome c).alike (.closed s) (by simp [hrest]) hn hm

theorem get {g g' : Scan → Read β}
    (h : ∀ s s', Follows s s' ∨ s = s' → d ≤ s.rest.length →
      Steady s.rest.length n m e lost (g s) (g' s')) :
    Steady d n m e lost (MonadState.get >>= g) (MonadState.get >>= g') := by
  refine ⟨fun s b w hs hresult => ?_, fun s b w hs hresult => ?_,
    fun {s s'} hfollows hs hn hm => ?_⟩
  · exact (h s s (.inr rfl) hs).left s b w (Nat.le_refl _) hresult
  · exact (h s s (.inr rfl) hs).right s b w (Nat.le_refl _) hresult
  · exact (h s s' (.inl hfollows) hs).alike hfollows (Nat.le_refl _) hn hm

/-- The same, where what is left bounds the rounds that are to come. -/
theorem here {g g' : Scan → Read β}
    (h : ∀ s s', Follows s s' ∨ s = s' → d ≤ s.rest.length →
      Steady s.rest.length (s.rest.length + 1) (s'.rest.length + 1) e lost (g s) (g' s')) :
    Steady d n m e lost (MonadState.get >>= g) (MonadState.get >>= g') := by
  refine ⟨fun s b w hs hresult => ?_, fun s b w hs hresult => ?_,
    fun {s s'} hfollows hs _ _ => ?_⟩
  · exact (h s s (.inr rfl) hs).left s b w (Nat.le_refl _) hresult
  · exact (h s s (.inr rfl) hs).right s b w (Nat.le_refl _) hresult
  · exact (h s s' (.inl hfollows) hs).alike hfollows (Nat.le_refl _) (Nat.lt_succ_self _)
      (Nat.lt_succ_self _)

theorem flags {g g' : Flags → Read β} (h : ∀ f, Steady d n m e lost (g f) (g' f)) :
    Steady d n m e lost (Read.flags >>= g) (Read.flags >>= g') := by
  refine get fun s s' hfollows hd => ?_
  have hflags : s'.flags = s.flags := by
    rcases hfollows with hfollows | rfl
    · exact hfollows.flags_eq
    · rfl
  change Steady _ n m e lost (g s.flags) (g' s'.flags)
  rw [hflags]
  exact (h s.flags).of_le hd

end observed

theorem modify {lost : Unit → Scan → Prop} {move : Scan → Scan}
    (htakes : ∀ s, d ≤ s.rest.length →
      (move s).rest <:+ s.rest ∧ (move s).rest.length + e ≤ s.rest.length)
    (hfollows : ∀ s s', Follows s s' → d ≤ s.rest.length → Follows (move s) (move s')) :
    Steady d n m e lost (modify move) (modify move) :=
  ⟨.modify htakes, .modify htakes, fun h hs _ _ => .both (hfollows _ _ h hs)⟩

/-- A reader that is called anew behind what it took, in rounds. Without a round it fails. -/
theorem recursion {ι : Type} {R : Nat → ι → Read α} (hzero : ∀ i, R 0 i = Alternative.failure)
    (hstep : ∀ n m, (∀ i, Steady 0 n m e lost (R n i) (R m i)) →
      ∀ i, Steady 0 (n + 1) (m + 1) e lost (R (n + 1) i) (R (m + 1) i)) (n m : Nat) (i : ι) :
    Steady d n m e lost (R n i) (R m i) := by
  refine of_le ?_ (Nat.zero_le d)
  have hsame : ∀ n i, Steady 0 n n e lost (R n i) (R n i) := by
    intro n
    induction n with
    | zero =>
      intro i
      rw [hzero i]
      exact failure
    | succ n ih => exact hstep n n ih
  induction n generalizing m i with
  | zero =>
    exact ⟨(hsame 0 i).left, (hsame m i).right, fun _ _ hn _ => absurd hn (Nat.not_lt_zero _)⟩
  | succ n ih =>
    cases m with
    | zero =>
      exact ⟨(hsame _ i).left, (hsame 0 i).right, fun _ _ _ hm => absurd hm (Nat.not_lt_zero _)⟩
    | succ m => exact hstep n m (ih m) i

end Steady

end Worksheet.Pattern
