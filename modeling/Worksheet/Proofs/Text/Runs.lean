import Mathlib.Data.List.TakeWhile
import Worksheet.Text.Basic

set_option autoImplicit false

/-!
# Runs of characters

A run goes as far as its predicate holds, and a text without blanks at its ends is trimmed already.
-/
namespace Worksheet.Text

theorem forall_mem_of_all {p : Char → Prop} [DecidablePred p] {cs : List Char}
    (h : (cs.all fun c => decide (p c)) = true) : ∀ c ∈ cs, p c :=
  fun c hc => of_decide_eq_true (List.all_eq_true.1 h c hc)

section runs

variable {α : Type} {p : α → Bool} {run rest : List α}

theorem takeWhile_run (h : ∀ c ∈ run, p c = true) (hrest : ∀ c, rest.head? = some c → p c = false) :
    (run ++ rest).takeWhile p = run := by
  rw [List.takeWhile_append_of_pos h]
  cases rest with
  | nil => simp
  | cons c rest => simp [hrest c rfl]

theorem dropWhile_run (h : ∀ c ∈ run, p c = true) (hrest : ∀ c, rest.head? = some c → p c = false) :
    (run ++ rest).dropWhile p = rest := by
  rw [List.dropWhile_append_of_pos h]
  cases rest with
  | nil => rfl
  | cons c rest => simp [hrest c rfl]

theorem takeWhile_append_stop (cs : List α) (hrest : ∀ c, rest.head? = some c → p c = false) :
    (cs ++ rest).takeWhile p = cs.takeWhile p := by
  induction cs with
  | nil =>
    cases rest with
    | nil => rfl
    | cons c rest => simp [hrest c rfl]
  | cons c cs ih => rw [List.cons_append, List.takeWhile_cons, List.takeWhile_cons, ih]

theorem takeWhile_none (h : ∀ c, rest.head? = some c → p c = false) : rest.takeWhile p = [] :=
  takeWhile_run (fun _ hc => absurd hc List.not_mem_nil) h

theorem dropWhile_none (h : ∀ c, rest.head? = some c → p c = false) : rest.dropWhile p = rest :=
  dropWhile_run (fun _ hc => absurd hc List.not_mem_nil) h

theorem takeWhile_ne [DecidableEq α] {d : α} {cs : List α} (h : d ∉ cs) (rest : List α) :
    (cs ++ d :: rest).takeWhile (· ≠ d) = cs := by
  refine takeWhile_run (fun c hc => decide_eq_true fun he => h (he ▸ hc)) fun c hc => ?_
  obtain rfl := Option.some.inj hc
  exact decide_eq_false (not_not_intro rfl)

theorem dropWhile_ne [DecidableEq α] {d : α} {cs : List α} (h : d ∉ cs) (rest : List α) :
    (cs ++ d :: rest).dropWhile (· ≠ d) = d :: rest := by
  refine dropWhile_run (fun c hc => decide_eq_true fun he => h (he ▸ hc)) fun c hc => ?_
  obtain rfl := Option.some.inj hc
  exact decide_eq_false (not_not_intro rfl)

end runs

theorem prefix_append_cases {α : Type} {p l l' : List α} (h : p <+: l ++ l') :
    p <+: l ∨ ∃ q, q <+: l' ∧ p = l ++ q := by
  rcases List.prefix_or_prefix_of_prefix h (List.prefix_append l l') with hp | ⟨q, rfl⟩
  · exact .inl hp
  · exact .inr ⟨q, (List.prefix_append_right_inj l).1 h, rfl⟩

theorem trimList_eq_self {cs : List Char} (hfirst : ∀ c, cs.head? = some c → isBlank c = false)
    (hlast : ∀ c, cs.getLast? = some c → isBlank c = false) : trimList cs = cs := by
  have hback : ∀ c, cs.reverse.head? = some c → isBlank c = false := by
    intro c hc
    rw [List.head?_reverse] at hc
    exact hlast c hc
  unfold trimList
  rw [dropWhile_none hfirst, dropWhile_none hback, List.reverse_reverse]

theorem trimList_of_forall {cs : List Char} (h : ∀ c ∈ cs, isBlank c = false) :
    trimList cs = cs :=
  trimList_eq_self (fun c hc => h c (List.mem_of_mem_head? hc))
    (fun c hc => h c (List.mem_of_getLast? hc))

theorem trimList_cons {c : Char} (hc : isBlank c = false) (cs : List Char) :
    ∃ ds, trimList (c :: cs) = c :: ds := by
  have hfront : (c :: cs).dropWhile isBlank = c :: cs :=
    List.dropWhile_cons_of_neg (by simp [hc])
  have hlast : [c].dropWhile isBlank = [c] := List.dropWhile_cons_of_neg (by simp [hc])
  unfold trimList
  rw [hfront, List.reverse_cons, List.dropWhile_append, hlast]
  split
  · exact ⟨[], rfl⟩
  · exact ⟨(cs.reverse.dropWhile isBlank).reverse, by simp⟩

theorem head?_dropWhile {c : Char} {cs : List Char} (h : (cs.dropWhile isBlank).head? = some c) :
    isBlank c = false := by
  have hfirst := List.head?_dropWhile_not isBlank cs
  rwa [h] at hfirst

theorem head?_trimList (cs : List Char) :
    (trimList cs).head? = (cs.dropWhile isBlank).head? := by
  cases hfront : cs.dropWhile isBlank with
  | nil =>
    unfold trimList
    rw [hfront]
    rfl
  | cons c rest =>
    have hc : isBlank c = false := head?_dropWhile (by rw [hfront]; rfl)
    obtain ⟨ds, hds⟩ := trimList_cons hc rest
    have hsame : trimList (c :: rest) = trimList cs := by
      unfold trimList
      rw [hfront, List.dropWhile_cons_of_neg (by simp [hc])]
    rw [← hsame, hds]
    rfl

theorem head?_trimList_append (cs rest : List Char) :
    (trimList (cs ++ rest)).head? = (trimList cs).head?.or (trimList rest).head? := by
  rw [head?_trimList, head?_trimList, head?_trimList, List.dropWhile_append]
  cases cs.dropWhile isBlank with
  | nil => rfl
  | cons c ds => rfl

theorem trimList_trimList (cs : List Char) : trimList (trimList cs) = trimList cs := by
  refine trimList_eq_self (fun c hc => ?_) fun c hc => ?_
  · rw [head?_trimList] at hc
    exact head?_dropWhile hc
  · unfold trimList at hc
    rw [List.getLast?_reverse] at hc
    exact head?_dropWhile hc

theorem mem_of_mem_trimList {c : Char} {cs : List Char} (h : c ∈ trimList cs) : c ∈ cs := by
  have hback := (List.dropWhile_sublist isBlank).subset (List.mem_reverse.1 h)
  exact (List.dropWhile_sublist isBlank).subset (List.mem_reverse.1 hback)

end Worksheet.Text
