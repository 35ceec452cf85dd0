import Worksheet.Proofs.Pattern.Classes

set_option autoImplicit false

/-!
# Whole patterns before a closing text

Repetitions, groups with their names and flags, and the alternatives that a pattern is made of. What is
read at the end of a pattern is read before the closing text as well, and where only the second is read,
the closing parenthesis is gone.
-/
namespace Worksheet.Pattern
open Read

def addName (name : List Char) : Read Unit := do
  let s ← get
  if name = [] ∨ s.names.contains name then failure
  set { s with names := name :: s.names }

section groups

variable {d n m : Nat} (library : Library)

theorem bracketed_steady : Steady 1 n m 1 (fun _ => Past 1) (bracketed library) (bracketed library) := by
  unfold bracketed
  refine .here fun s s' _ hpos => ?_
  refine (Steady.bind_taking setOpen_steady fun opened => ?_).of_le hpos
  have hbody := (setBody_steady (d := 0) (n := s.rest.length + 1) (m := s'.rest.length + 1) library
    opened.1 opened.2).lower (Nat.sub_le _ 1) (Nat.sub_le _ 1)
  exact .bind hbody fun _ => .pure _

theorem repeatLast_steady {lost : List Item → Scan → Prop} (items : List Item) (least : Nat)
    (greatest : Option Nat) :
    Steady d n m 0 lost (repeatLast items least greatest) (repeatLast items least greatest) := by
  cases items with
  | nil => exact .failure
  | cons item items =>
    unfold repeatLast
    refine .ite (fun _ => .failure) fun _ => .peek (fun c => ?_) (.pure _) (.pure _)
    exact .ite (fun _ => .step bump_steady fun _ => .pure _) fun _ => .pure _

theorem addName_takes (name : List Char) : Takes d 0 (addName name) := by
  intro s a u _ h
  unfold addName at h
  change (if name = [] ∨ s.names.contains name then _ else _ : Read Unit) s = _ at h
  split at h
  · cases h
  · obtain ⟨-, rfl⟩ := Prod.mk.inj (Option.some.inj h)
    exact ⟨List.suffix_rfl, Nat.le_refl _⟩

theorem addName_steady {lost : Unit → Scan → Prop} (name : List Char) :
    Steady d n m 0 lost (addName name) (addName name) := by
  refine ⟨addName_takes name, addName_takes name, fun {s s'} hfollows _ _ _ => ?_⟩
  unfold addName
  change Alike lost ((if name = [] ∨ s.names.contains name then _ else _ : Read Unit) s)
    ((if name = [] ∨ s'.names.contains name then _ else _ : Read Unit) s')
  rw [hfollows.names_eq]
  split
  · exact .alone fun _ _ h => nomatch h
  · refine .both ?_
    cases hfollows with
    | closed => exact .closed { s with names := name :: s.names }
    | ended hend => exact .ended hend

theorem groupName_steady (taken : List Char) :
    Steady d n m 1 (fun _ => Past 1) (groupName library n taken) (groupName library m taken) := by
  refine Steady.recursion (fun _ => rfl) (fun n m ih taken => ?_) n m taken
  unfold groupName
  refine .need (fun c => .ite (fun _ => ?_) fun _ => .ite (fun _ => ?_) fun _ => .failure) fun _ _ h => h
  · exact .advance bump_steady fun _ => addName_steady taken.reverse
  · exact .advance bump_steady fun _ => (ih _).weaken

theorem readFlags_steady (seen : List Char) (dangling : Bool) (f : Flags) :
    Steady d n m 0 (fun _ => Past 0) (readFlags n seen dangling f) (readFlags m seen dangling f) := by
  refine Steady.recursion (R := fun n (i : List Char × Bool × Flags) => readFlags n i.1 i.2.1 i.2.2)
    (fun _ => rfl) (fun n m ih i => ?_) n m (seen, dangling, f)
  obtain ⟨seen, dangling, f⟩ := i
  unfold readFlags
  refine .need (fun c => .ite (fun _ => ?_) fun _ => .ite (fun _ => .failure) fun _ =>
    .ite (fun _ => ?_) fun _ => ?_) fun _ _ h => h
  · exact .ite (fun _ => .failure) fun _ => .pure _
  · exact .step bump_steady fun _ => ih ('-' :: seen, true, f)
  · dsimp only
    cases f.set? c (!seen.contains '-') with
    | none => exact .failure
    | some f => exact .step bump_steady fun _ => ih (c :: seen, false, f)

theorem isPrefixOf_closing {mark : List Char} (hmark : ')' ∉ mark) (cs : List Char) :
    mark.isPrefixOf (cs ++ closing) = mark.isPrefixOf cs := by
  induction mark generalizing cs with
  | nil => rfl
  | cons c mark ih =>
    obtain ⟨hc, hmark⟩ := not_or.1 (mt List.mem_cons.2 hmark)
    cases cs with
    | nil =>
      change (c == ')' && _) = false
      rw [beq_false_of_ne (Ne.symm hc), Bool.false_and]
    | cons c' cs =>
      change (c == c' && mark.isPrefixOf (cs ++ closing)) = (c == c' && mark.isPrefixOf cs)
      rw [ih hmark]

theorem Follows.isPrefixOf_eq {s s' : Scan} (h : Follows s s') {mark : List Char} (hmark : ')' ∉ mark) :
    mark.isPrefixOf s'.rest = mark.isPrefixOf s.rest := by
  cases h with
  | closed => exact isPrefixOf_closing hmark s.rest
  | ended => rfl

theorem take_steady {lost : Bool → Scan → Prop} {text : String} (htext : ')' ∉ text.toList) :
    Steady d n m 0 lost (take text) (take text) := by
  have htakes : Takes d 0 (take text) := by
    intro s b u _ h
    change (if text.toList.isPrefixOf s.rest then _ else _ : Read Bool) s = _ at h
    split at h
    · obtain ⟨-, rfl⟩ := Prod.mk.inj (Option.some.inj h)
      exact ⟨List.drop_suffix _ _, (List.drop_suffix _ _).length_le⟩
    · obtain ⟨-, rfl⟩ := Prod.mk.inj (Option.some.inj h)
      exact ⟨List.suffix_rfl, Nat.le_refl _⟩
  refine ⟨htakes, htakes, fun {s s'} hfollows _ _ _ => ?_⟩
  change Alike lost ((if text.toList.isPrefixOf s.rest then _ else _ : Read Bool) s)
    ((if text.toList.isPrefixOf s'.rest then _ else _ : Read Bool) s')
  rw [hfollows.isPrefixOf_eq htext]
  split
  · rename_i hprefix
    refine .both ?_
    cases hfollows with
    | closed =>
      have hlength : text.length ≤ s.rest.length := by
        have hle := (List.isPrefixOf_iff_prefix.1 hprefix).length_le
        rwa [String.length_toList] at hle
      change Follows _ ({ s with rest := (s.rest ++ closing).drop text.length } : Scan)
      rw [List.drop_append_of_le_length hlength]
      exact .closed { s with rest := s.rest.drop text.length }
    | ended hend =>
      refine .ended ?_
      change s.rest.drop text.length = []
      rw [hend, List.drop_nil]
  · exact .both hfollows

theorem groupOpen_steady : Steady 1 n m 1 (fun _ => Past 1) (groupOpen library) (groupOpen library) := by
  unfold groupOpen
  refine .advance bump_steady fun _ => .stay space_steady fun _ => .here fun s s' hfollows _ => ?_
  have hflags : s'.flags = s.flags := by
    rcases hfollows with hfollows | rfl
    · exact hfollows.flags_eq
    · rfl
  have hmark : ∀ {mark : List Char}, ')' ∉ mark → mark.isPrefixOf s'.rest = mark.isPrefixOf s.rest := by
    rcases hfollows with hfollows | rfl
    · exact hfollows.isPrefixOf_eq
    · exact fun _ => rfl
  have hlook : (["?=", "?!", "?<=", "?<!"].any fun mark => mark.toList.isPrefixOf s'.rest) =
      ["?=", "?!", "?<=", "?<!"].any fun mark => mark.toList.isPrefixOf s.rest := by
    simp only [List.any_cons]
    rw [hmark (by decide), hmark (by decide), hmark (by decide), hmark (by decide)]
    rfl
  dsimp only
  rw [hflags, hlook]
  refine .ite (fun _ => .failure) fun _ =>
    .stay (take_steady (by decide)) fun named => .ite (fun _ => ?_) fun _ =>
    .stay (take_steady (by decide)) fun named => .ite (fun _ => ?_) fun _ =>
    .stay (take_steady (by decide)) fun flagged => .ite (fun _ => ?_) fun _ => .pure _
  · exact (Steady.bind (groupName_steady library []) fun _ => .pure _).weaken
  · exact (Steady.bind (groupName_steady library []) fun _ => .pure _).weaken
  · refine (Steady.bind_taking (readFlags_steady [] false s.flags) fun r => ?_).weaken
    refine .need (fun finish => .advance bump_steady fun _ => ?_) fun _ _ h => h
    exact .ite (fun _ => .ite (fun _ => .pure _) fun _ => .failure) fun _ => .pure _

theorem body_eq_none {v : Scan} (hbrace : v.rest.head? = some '\x7b') (hcounts : counts v = none)
    (branches items : List Item) : body library n branches items v = none := by
  cases n with
  | zero => rfl
  | succ n =>
    obtain ⟨rest, flags, names⟩ := v
    obtain ⟨cs, rfl⟩ := List.head?_eq_some_iff.1 hbrace
    have hspace : space ⟨'\x7b' :: cs, flags, names⟩ = some ((), ⟨'\x7b' :: cs, flags, names⟩) := by
      change some ((), spaced _) = _
      unfold spaced
      split
      · rfl
      · rfl
    unfold body
    rw [bind_apply, hspace, Option.bind_some, peek_bind]
    simp only [List.head?_cons, bind_apply, hcounts, Option.bind_none]

/-- The induction is on the rounds: each piece that is taken leaves one round less for what follows. -/
theorem body_steady (branches items : List Item) :
    Steady d n m 0 (fun _ => Past 1) (body library n branches items) (body library m branches items) := by
  refine Steady.recursion (R := fun n (i : List Item × List Item) => body library n i.1 i.2) (fun _ => rfl)
    (fun n m ih i => ?_) n m (branches, items)
  obtain ⟨branches, items⟩ := i
  have hbody : ∀ branches items, Steady 0 n m 0 (fun _ => Past 1) (body library n branches items)
      (body library m branches items) := fun branches items => ih (branches, items)
  have hrepeat : ∀ least greatest, Steady 0 n m 0 (fun _ => Past 1)
      (repeatLast items least greatest >>= fun items => body library n branches items)
      (repeatLast items least greatest >>= fun items => body library m branches items) := fun least greatest =>
    .stay (repeatLast_steady items least greatest) fun items => hbody branches items
  unfold body
  refine .stay space_steady fun _ => .peek (fun c => ?_) (.pure _) (.pure _)
  dsimp only
  split
  · exact .pure _
  · exact .pure _
  · exact .step bump_steady fun _ => hbody _ _
  · refine .flags fun outer => Steady.weaken (e := 1) (.bind (groupOpen_steady library) fun opened =>
      .stay (setFlags_steady _) fun _ => .ite (fun _ => hbody _ _) fun _ =>
      .bind (hbody [] []) fun item => Steady.weaken (e := 1) (.bind (expect_steady _) fun _ => ?_))
    exact .stay (setFlags_steady outer) fun _ => (hbody _ _).lower (Nat.sub_le _ _) (Nat.sub_le _ _)
  · exact Steady.weaken (e := 1) (.bind (bracketed_steady library) fun item => hbody _ _)
  · exact .step bump_steady fun _ => hrepeat 0 (some 1)
  · exact .step bump_steady fun _ => hrepeat 0 none
  · exact .step bump_steady fun _ => hrepeat 1 none
  · exact Steady.weaken (e := 1) (.bind counts_steady fun range => hrepeat range.1 range.2)
  · refine .bind_of_lost primitive_steady (fun item => hbody branches (item :: items)) (Nat.le_refl _)
      (Nat.le_refl _) (Nat.zero_le _) fun item v hv b w hw => ?_
    rcases hv with hv | ⟨hbrace, hcounts⟩
    · exact hv.add ((hbody branches (item :: items)).right v b w (Nat.zero_le _) hw)
    · rw [body_eq_none library hbrace hcounts] at hw
      cases hw

end groups

end Worksheet.Pattern
