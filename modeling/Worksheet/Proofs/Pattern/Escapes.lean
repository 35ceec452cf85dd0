import Worksheet.Proofs.Pattern.Steady

set_option autoImplicit false

/-!
# Escapes and counts before a closing text

The moves over what is left, the readers of counts in braces, and those of escapes. They are steady, with
one reader that comes back: a word edge looks behind a brace for its name and takes none of it if there
is none. At the end of a pattern it finds nothing to look at, and before the closing text it does. It is
lost there before the brace, where no counts can be read.
-/
namespace Worksheet.Pattern
open Read

theorem head?_closing {c : Char} (hc : c ≠ ')') (cs : List Char) :
    (cs ++ closing).head? = some c ↔ cs.head? = some c := by
  cases cs with
  | nil => simp [closing, hc.symm]
  | cons c' cs => rfl

theorem dropWhile_closing {p : Char → Bool} (hp : p ')' = false) (cs : List Char) :
    (cs ++ closing).dropWhile p = cs.dropWhile p ++ closing := by
  induction cs with
  | nil => simp [closing, hp]
  | cons c cs ih =>
    rw [List.cons_append, List.dropWhile_cons, List.dropWhile_cons, ih]
    split
    · rfl
    · rfl

theorem Follows.head?_eq_some_iff {s s' : Scan} (h : Follows s s') {c : Char} (hc : c ≠ ')') :
    s'.rest.head? = some c ↔ s.rest.head? = some c := by
  cases h with
  | closed => exact head?_closing hc s.rest
  | ended => exact Iff.rfl

theorem skipVerbose_suffix (inComment : Bool) (cs : List Char) :
    skipVerbose inComment cs <:+ cs := by
  induction cs generalizing inComment with
  | nil => exact List.suffix_rfl
  | cons c cs ih =>
    unfold skipVerbose
    split
    · exact (ih _).trans (List.suffix_cons c cs)
    · split
      · exact (ih _).trans (List.suffix_cons c cs)
      · split
        · exact (ih _).trans (List.suffix_cons c cs)
        · exact List.suffix_rfl

theorem skipVerbose_closing (inComment : Bool) (cs : List Char) :
    skipVerbose inComment (cs ++ closing) = skipVerbose inComment cs ++ closing ∨
      skipVerbose inComment cs = [] ∧ skipVerbose inComment (cs ++ closing) = [] := by
  induction cs generalizing inComment with
  | nil =>
    cases inComment with
    | true => exact .inr ⟨rfl, rfl⟩
    | false => exact .inl rfl
  | cons c cs ih =>
    rw [List.cons_append]
    unfold skipVerbose
    split
    · exact ih _
    · split
      · exact ih _
      · split
        · exact ih _
        · exact .inl rfl

def spaced (s : Scan) : Scan :=
  if s.flags.verbose then { s with rest := skipVerbose false s.rest } else s

theorem spaced_suffix (s : Scan) : (spaced s).rest <:+ s.rest := by
  unfold spaced
  split
  · exact skipVerbose_suffix false s.rest
  · exact List.suffix_rfl

theorem Follows.spaced {s s' : Scan} (h : Follows s s') :
    Follows (Pattern.spaced s) (Pattern.spaced s') := by
  cases h with
  | closed =>
    unfold Pattern.spaced
    change Follows _ (if s.flags.verbose then
      ({ s with rest := skipVerbose false (s.rest ++ closing) } : Scan) else s.closed)
    split
    · rcases skipVerbose_closing false s.rest with hleft | ⟨hnil, hnil'⟩
      · rw [hleft]
        exact .closed { s with rest := skipVerbose false s.rest }
      · rw [hnil, hnil']
        exact .ended rfl
    · exact .closed s
  | ended hend =>
    refine .ended ?_
    have hsuffix := spaced_suffix s
    rw [hend] at hsuffix
    exact List.suffix_nil.1 hsuffix

theorem Follows.bumped {s s' : Scan} (h : Follows s s') (hpos : 1 ≤ s.rest.length) :
    Follows { s with rest := s.rest.tail } { s' with rest := s'.rest.tail } := by
  obtain rfl := h.eq_closed hpos
  change Follows _ ({ s with rest := (s.rest ++ closing).tail } : Scan)
  rw [List.tail_append_of_ne_nil (List.length_pos_iff.1 hpos)]
  exact .closed { s with rest := s.rest.tail }

section moves

variable {d n m : Nat}

theorem bump_steady : Steady 1 n m 1 (fun _ _ => False) bump bump := by
  refine .modify (fun s hs => ⟨List.tail_suffix _, ?_⟩) fun s s' h hs => h.bumped hs
  change s.rest.tail.length + 1 ≤ s.rest.length
  rw [List.length_tail]
  omega

theorem bumpTwice_steady : Steady 2 n m 1 (fun _ _ => False)
    (modify fun s : Scan => { s with rest := s.rest.tail.tail })
    (modify fun s : Scan => { s with rest := s.rest.tail.tail }) := by
  refine .modify (fun s hs => ⟨(List.tail_suffix _).trans (List.tail_suffix _), ?_⟩)
    fun s s' h hs => ?_
  · change s.rest.tail.tail.length + 1 ≤ s.rest.length
    rw [List.length_tail, List.length_tail]
    omega
  · refine (h.bumped (Nat.le_of_succ_le hs)).bumped ?_
    change 1 ≤ s.rest.tail.length
    rw [List.length_tail]
    omega

theorem behindTwo_steady {α : Type} {lost : α → Scan → Prop} {f f' : Read α}
    (h : Steady 0 n m 0 lost f f') : Steady 2 (n + 1) (m + 1) 1 lost
      (bump >>= fun _ => bump >>= fun _ => f) (bump >>= fun _ => bump >>= fun _ => f') := by
  have hmove := Steady.advance (n := n + 1) (m := m + 1) bumpTwice_steady fun _ => h
  exact hmove

theorem space_steady : Steady d n m 0 (fun _ _ => False) space space :=
  .modify (fun s _ => ⟨spaced_suffix s, (spaced_suffix s).length_le⟩) fun _ _ h _ => h.spaced

theorem bumpSpace_steady : Steady 1 n m 1 (fun _ _ => False) bumpSpace bumpSpace :=
  .advance bump_steady fun _ => space_steady

theorem setFlags_steady (f : Flags) : Steady d n m 0 (fun _ _ => False) (setFlags f) (setFlags f) := by
  refine .modify (fun s _ => ⟨List.suffix_rfl, Nat.le_refl _⟩) fun s s' h _ => ?_
  cases h with
  | closed => exact .closed { s with flags := f }
  | ended hend => exact .ended hend

theorem expect_steady (c : Char) : Steady d n m 1 (fun _ => Past 1) (expect c) (expect c) := by
  unfold expect
  refine .need (fun c' => .ite (fun _ => ?_) fun _ => .failure) fun _ _ h => h
  exact bump_steady.mono (Nat.le_refl _) (Nat.le_refl _) fun _ _ h => h.elim

end moves

def countsEnd (range : Nat × Option Nat) : Read (Nat × Option Nat) := do
  expect '\x7d'
  space
  match range.2 with
  | some greatest => if greatest < range.1 then failure else return range
  | none => return range

section counts

variable {d n m : Nat}

theorem dropBlanks_steady : Steady d n m 0 (fun _ _ => False)
    (modify fun s : Scan => { s with rest := s.rest.dropWhile Text.isBlank })
    (modify fun s : Scan => { s with rest := s.rest.dropWhile Text.isBlank }) := by
  refine .modify (fun s _ => ⟨List.dropWhile_suffix _, (List.dropWhile_suffix _).length_le⟩)
    fun s s' h _ => ?_
  cases h with
  | closed =>
    change Follows _ ({ s with rest := (s.rest ++ closing).dropWhile Text.isBlank } : Scan)
    rw [dropWhile_closing (by decide)]
    exact .closed { s with rest := s.rest.dropWhile Text.isBlank }
  | ended hend =>
    refine .ended ?_
    change s.rest.dropWhile Text.isBlank = []
    rw [hend]
    rfl

theorem digits_steady {lost : List Char → Scan → Prop} (taken : List Char) :
    Steady d n m 0 lost (decimal.digits n taken) (decimal.digits m taken) := by
  refine Steady.recursion (fun _ => rfl) (fun n m ih taken => ?_) n m taken
  unfold decimal.digits
  refine .peek (fun c => .ite (fun _ => ?_) fun _ => .pure _) (.pure _) (.pure _)
  exact .step bumpSpace_steady fun _ => ih _

theorem decimal_steady {lost : Option Nat → Scan → Prop} : Steady d n m 0 lost decimal decimal := by
  unfold decimal
  refine .stay dropBlanks_steady fun _ => .here fun _ _ _ _ => .stay (digits_steady []) fun ds =>
    .stay dropBlanks_steady fun _ => .ite (fun _ => .pure _) fun _ => ?_
  exact .ite (fun _ => .pure _) fun _ => .failure

theorem countsEnd_steady (range : Nat × Option Nat) :
    Steady d n m 1 (fun _ => Past 1) (countsEnd range) (countsEnd range) := by
  unfold countsEnd
  refine .bind (expect_steady _) fun _ => .stay space_steady fun _ => ?_
  obtain ⟨least, _ | greatest⟩ := range
  · exact .pure _
  · exact .ite (fun _ => .failure) fun _ => .pure _

theorem counts_steady : Steady 1 n m 1 (fun _ => Past 1) counts counts := by
  unfold counts
  refine .stay bumpSpace_steady fun _ => .need (fun _ => ?_) fun _ _ h => h
  refine .stay decimal_steady fun least? => ?_
  cases least? with
  | none => exact .failure
  | some least =>
    refine .need (fun c => ?_) fun _ _ h => h
    refine .ite (fun _ => ?_) fun _ => ?_
    · refine .stay bumpSpace_steady fun _ =>
        .need (fun c => .ite (fun _ => ?_) fun _ => ?_) fun _ _ h => h
      · exact countsEnd_steady (least, none)
      · refine .stay decimal_steady fun greatest? => ?_
        cases greatest? with
        | none => exact .failure
        | some greatest => exact countsEnd_steady (least, some greatest)
    · exact countsEnd_steady (least, some least)

end counts

theorem counts_eq_none {v : Scan} (h : (spaced { v with rest := v.rest.tail }).rest = closing) :
    counts v = none := by
  generalize hu : spaced { v with rest := v.rest.tail } = u at h
  obtain ⟨rest, flags, names⟩ := u
  obtain rfl : rest = closing := h
  have hbump : bumpSpace v = some ((), ⟨closing, flags, names⟩) :=
    congrArg (fun u => some ((), u)) hu
  unfold counts
  rw [bind_apply, hbump]
  rfl

def propertyAtom (library : Library) (negated : Bool) (asked : Property × Bool) : Read Atom := do
  let f ← flags
  if !f.unicode then failure
  let some set := library.property? asked.1 | failure
  let set := library.fold f set
  return .cls (if negated != asked.2 then set.negate else set)

section escapes

variable {d n m : Nat} (library : Library)

theorem hexDigits_steady (k value : Nat) :
    Steady d n m k (fun _ => Past 1) (hexDigits k value) (hexDigits k value) := by
  induction k generalizing d n m value with
  | zero => exact .pure value
  | succ k ih =>
    unfold hexDigits
    refine .need (fun c => ?_) fun _ _ h => h.mono (Nat.le_add_left _ _)
    cases hexDigit? c with
    | none => exact .failure
    | some digit => exact .advance bumpSpace_steady fun _ => ih _

theorem hexBrace_steady (value : Nat) (given : Bool) :
    Steady d n m 1 (fun _ => Past 1) (hexBrace n value given) (hexBrace m value given) := by
  refine Steady.recursion (R := fun n (i : Nat × Bool) => hexBrace n i.1 i.2) (fun _ => rfl)
    (fun n m ih i => ?_) n m (value, given)
  unfold hexBrace
  refine .need (fun c => .ite (fun _ => ?_) fun _ => ?_) fun _ _ h => h
  · exact .advance bumpSpace_steady fun _ => .ite (fun _ => .pure _) fun _ => .failure
  · cases hexDigit? c with
    | none => exact .failure
    | some digit =>
      exact .advance bumpSpace_steady fun _ =>
        .ite (fun _ => .failure) fun _ => (ih (_, true)).weaken

theorem hexEscape_steady (k : Nat) :
    Steady 1 n m 1 (fun _ => Past 1) (hexEscape (k + 1)) (hexEscape (k + 1)) := by
  unfold hexEscape
  refine .stay bumpSpace_steady fun _ =>
    .need (fun c => .ite (fun _ => ?_) fun _ => ?_) fun _ _ h => h
  · refine .stay bumpSpace_steady fun _ => .here fun _ _ _ _ =>
      .bind (hexBrace_steady 0 false) fun value => ?_
    cases char? value with
    | none => exact .failure
    | some c => exact .pure _
  · have hdigits := (hexDigits_steady (k + 1) 0).mono (n := n) (m := m) (Nat.zero_le 1)
      (Nat.le_add_left 1 k) fun _ _ h => h
    refine .bind hdigits fun value => ?_
    cases char? value with
    | none => exact .failure
    | some c => exact .pure _

theorem braced_steady (taken : List Char) :
    Steady d n m 1 (fun _ => Past 1) (braced n taken) (braced m taken) := by
  refine Steady.recursion (fun _ => rfl) (fun n m ih taken => ?_) n m taken
  unfold braced
  refine .need (fun c => .ite (fun _ => ?_) fun _ => ?_) fun _ _ h => h
  · exact .advance bump_steady fun _ => .pure _
  · exact .advance bumpSpace_steady fun _ => (ih _).weaken

theorem propertyAtom_steady {lost : Atom → Scan → Prop} (negated : Bool) (asked : Property × Bool) :
    Steady d n m 0 lost (propertyAtom library negated asked) (propertyAtom library negated asked) := by
  unfold propertyAtom
  refine .flags fun f => .ite (fun _ => .failure) fun _ => ?_
  cases library.property? asked.1 with
  | none => exact .failure
  | some set => exact .pure _

theorem propertyEscape_steady (negated : Bool) : Steady 1 n m 1 (fun _ => Past 1)
    (propertyEscape library negated) (propertyEscape library negated) := by
  unfold propertyEscape
  refine .stay bumpSpace_steady fun _ => .need (fun c => .ite (fun _ => ?_) fun _ =>
    .ite (fun _ => .failure) fun _ => ?_) fun _ _ h => h
  · exact .stay bumpSpace_steady fun _ => .here fun _ _ _ _ =>
      .bind (braced_steady []) fun name => propertyAtom_steady library negated (bracedProperty name)
  · exact .advance bumpSpace_steady fun _ => propertyAtom_steady library negated (.letter c, false)

theorem letterClass_steady (negated : Bool) (unicodeSet asciiSet : CharClass) :
    Steady 1 n m 1 (fun _ => Past 1) (letterClass negated unicodeSet asciiSet)
      (letterClass negated unicodeSet asciiSet) := by
  unfold letterClass
  exact .advance bump_steady fun _ => .flags fun f =>
    .ite (fun _ => .pure _) fun _ => .ite (fun _ => .failure) fun _ => .pure _

theorem wordLook_steady {lost : Atom → Scan → Prop} (edge : WordEdge) :
    Steady d n m 0 lost (wordLook library edge) (wordLook library edge) :=
  .flags fun _ => .pure _

theorem edgeName_steady (taken : List Char) :
    Steady d n m 0 (fun _ => Past 0) (edgeName n taken) (edgeName m taken) := by
  refine Steady.recursion (fun _ => rfl) (fun n m ih taken => ?_) n m taken
  unfold edgeName
  refine .need (fun c => ?_) fun _ _ h => h
  exact .ite (fun _ => .step bumpSpace_steady fun _ => ih _) fun _ => .pure _

end escapes

def namedEdge (library : Library) (n : Nat) : Read Atom := do
  let name ← edgeName n []
  expect '\x7d'
  match name with
  | "start" => wordLook library .start
  | "end" => wordLook library .finish
  | "start-half" => wordLook library .startHalf
  | "end-half" => wordLook library .finishHalf
  | _ => failure

/-- A reader of escapes is lost past the closing parenthesis, or behind a word edge before a brace that
nothing completes. -/
def Unfinished (a : Atom) (v : Scan) : Prop :=
  Past 1 v ∨ (∃ test, a = .look test) ∧ v.rest.head? = some '\x7b' ∧ counts v = none

section wordEdges

variable {d n m : Nat} {library : Library}

theorem namedEdge_steady (library : Library) :
    Steady d n m 1 (fun _ => Past 1) (namedEdge library n) (namedEdge library m) := by
  unfold namedEdge
  refine .bind_taking (edgeName_steady []) fun name => .bind (expect_steady _) fun _ => ?_
  split
  · exact wordLook_steady library _
  · exact wordLook_steady library _
  · exact wordLook_steady library _
  · exact wordLook_steady library _
  · exact .failure

theorem wordEdge_of_head_ne {s : Scan} (h : s.rest.head? ≠ some '\x7b') :
    wordEdge library s = wordLook library .boundary s := by
  unfold wordEdge
  change (if s.rest.head? = some '\x7b' then _ else wordLook library .boundary : Read Atom) s = _
  rw [if_neg h]

theorem wordEdge_of_head_eq {s : Scan} (h : s.rest.head? = some '\x7b') :
    wordEdge library s = (need (spaced { s with rest := s.rest.tail })).bind fun r =>
      if isEdgeChar r.1 then namedEdge library s.rest.length r.2 else wordLook library .boundary s := by
  unfold wordEdge
  change (if s.rest.head? = some '\x7b' then _ else wordLook library .boundary : Read Atom) s = _
  rw [if_pos h, bind_apply]
  change (need >>= _ : Read Atom) (spaced { s with rest := s.rest.tail }) = _
  rw [bind_apply]
  congr 1
  funext r
  split
  · rfl
  · rfl

theorem wordEdge_takes : Takes 0 0 (wordEdge library) := by
  intro s a w _ h
  have hlook : Takes 0 0 (wordLook library .boundary) := .get fun _ _ => .pure _
  by_cases hbrace : s.rest.head? = some '\x7b'
  · rw [wordEdge_of_head_eq hbrace] at h
    obtain ⟨⟨c, u⟩, hneed, h⟩ := Option.bind_eq_some_iff.1 h
    dsimp only at h
    split at h
    · obtain ⟨rfl, -⟩ := need_eq_some.1 hneed
      have hbefore : (spaced { s with rest := s.rest.tail }).rest <:+ s.rest :=
        (spaced_suffix _).trans (List.tail_suffix _)
      have hname := (namedEdge_steady (d := 0) (n := s.rest.length) (m := 0) library).left
      obtain ⟨hsuffix, -⟩ := hname _ a w (Nat.zero_le _) h
      exact ⟨hsuffix.trans hbefore, (hsuffix.trans hbefore).length_le⟩
    · exact hlook s a w (Nat.zero_le _) h
  · rw [wordEdge_of_head_ne hbrace] at h
    exact hlook s a w (Nat.zero_le _) h

theorem spaced_tail_lt {s : Scan} (hpos : 1 ≤ s.rest.length) :
    (spaced { s with rest := s.rest.tail }).rest.length < s.rest.length := by
  have hle := (spaced_suffix { s with rest := s.rest.tail }).length_le
  change _ ≤ s.rest.tail.length at hle
  rw [List.length_tail] at hle
  omega

/-- The reader looks behind the brace. If nothing stands there, only the closing text makes it a word
edge with a brace behind it. -/
theorem wordEdge_alike_of_brace {s : Scan} (hbrace : s.rest.head? = some '\x7b')
    (hlook : Alike Unfinished (wordLook library .boundary s) (wordLook library .boundary s.closed)) :
    Alike Unfinished (wordEdge library s) (wordEdge library s.closed) := by
  have hne : s.rest ≠ [] := fun hnil => by simp [hnil] at hbrace
  have hpos : 1 ≤ s.rest.length := List.length_pos_iff.2 hne
  have hpos' : 1 ≤ s.closed.rest.length := Nat.le_trans hpos (Follows.closed s).length_le
  have hbrace' : s.closed.rest.head? = some '\x7b' := (head?_closing (by decide) s.rest).2 hbrace
  have hinside := ((Follows.closed s).bumped hpos).spaced
  have hlength := spaced_tail_lt hpos
  have hlength' := spaced_tail_lt hpos'
  have hcounts := @counts_eq_none s.closed
  rw [wordEdge_of_head_eq hbrace, wordEdge_of_head_eq hbrace']
  generalize spaced { s with rest := s.rest.tail } = u at hinside hlength ⊢
  generalize spaced { s.closed with rest := s.closed.rest.tail } = u'
    at hinside hlength' hcounts ⊢
  cases hrest : u.rest with
  | nil =>
    rw [need_nil hrest]
    refine .alone fun a v ho => ?_
    obtain ⟨⟨c, w⟩, hneed, ho⟩ := Option.bind_eq_some_iff.1 ho
    obtain ⟨rfl, hc⟩ := need_eq_some.1 hneed
    cases hinside with
    | ended =>
      rw [hrest] at hc
      cases hc
    | closed =>
      have hclosing : u.closed.rest = closing := by simp [Scan.closed, hrest]
      rw [hclosing] at hc
      obtain rfl := Option.some.inj hc
      obtain ⟨rfl, rfl⟩ := Prod.mk.inj (Option.some.inj ho)
      exact .inr ⟨⟨_, rfl⟩, hbrace', hcounts hclosing⟩
  | cons c cs =>
    obtain rfl := hinside.eq_closed (by simp [hrest])
    have hrest' : u.closed.rest = c :: (cs ++ closing) := by simp [Scan.closed, hrest]
    rw [need_cons hrest, need_cons hrest']
    change Alike Unfinished
      (if isEdgeChar c then namedEdge library s.rest.length u else wordLook library .boundary s)
      (if isEdgeChar c then namedEdge library s.closed.rest.length u.closed
        else wordLook library .boundary s.closed)
    split
    · exact ((namedEdge_steady library).alike hinside (Nat.zero_le _) hlength hlength').mono
        fun _ _ h => .inl h
    · exact hlook

theorem wordEdge_steady : Steady d n m 0 Unfinished (wordEdge library) (wordEdge library) := by
  refine Steady.of_le ⟨wordEdge_takes, wordEdge_takes, fun {s s'} hfollows _ _ _ => ?_⟩
    (Nat.zero_le d)
  have hlook : Alike Unfinished (wordLook library .boundary s) (wordLook library .boundary s') :=
    (wordLook_steady library .boundary).alike hfollows (Nat.zero_le _) (Nat.lt_succ_self _)
      (Nat.lt_succ_self _)
  by_cases hbrace : s.rest.head? = some '\x7b'
  · have hne : s.rest ≠ [] := fun hnil => by simp [hnil] at hbrace
    obtain rfl := hfollows.eq_closed (List.length_pos_iff.2 hne)
    exact wordEdge_alike_of_brace hbrace hlook
  · have hbrace' := mt (hfollows.head?_eq_some_iff (by decide)).1 hbrace
    rw [wordEdge_of_head_ne hbrace, wordEdge_of_head_ne hbrace']
    exact hlook

end wordEdges

/-- As for escapes, for the pieces of a pattern. -/
def UnfinishedPiece (_ : Item) (v : Scan) : Prop :=
  Past 1 v ∨ v.rest.head? = some '\x7b' ∧ counts v = none

def pieceOf (r? : Option Regex) : Read Item := do
  let some r := r? | failure
  return ⟨r, 0, false⟩

section pieces

variable {d n m : Nat} {library : Library}

theorem escape_steady : Steady 1 n m 1 Unfinished (escape library) (escape library) := by
  have hpast : ∀ {d : Nat} {f : Read Atom}, Steady d n m 1 (fun _ => Past 1) f f →
      Steady d n m 1 Unfinished f f :=
    fun h => h.mono (Nat.le_refl _) (Nat.le_refl _) fun _ _ h => .inl h
  unfold escape
  refine .stay bump_steady fun _ => .need (fun c => ?_) fun _ _ h => .inl h
  split
  · exact hpast (hexEscape_steady 1)
  · exact hpast (hexEscape_steady 3)
  · exact hpast (hexEscape_steady 7)
  · exact hpast (propertyEscape_steady library _)
  · exact hpast (propertyEscape_steady library _)
  iterate 6 exact hpast (letterClass_steady _ _ _)
  · refine .advance bump_steady fun _ => ?_
    split
    iterate 8 exact .pure _
    · exact wordEdge_steady
    iterate 3 exact wordLook_steady library _
    · exact .ite (fun _ => .pure _) fun _ => .failure

theorem escape_bind_steady {β : Type} {lost : β → Scan → Prop} {g : Atom → Read β}
    (hg : ∀ a, Steady 0 n m 0 lost (g a) (g a))
    (hlost : ∀ a v, Unfinished a v → ∀ b w, g a v = some (b, w) → lost b w) :
    Steady 1 n m 1 lost (escape library >>= g) (escape library >>= g) :=
  .bind_of_lost escape_steady hg (Nat.le_succ n) (Nat.le_succ m) (Nat.le_refl 1) hlost

theorem pieceOf_steady {lost : Item → Scan → Prop} (r? : Option Regex) :
    Steady d n m 0 lost (pieceOf r?) (pieceOf r?) := by
  cases r? with
  | none => exact .failure
  | some r => exact .pure _

theorem eq_of_pieceOf (r? : Option Regex) {v w : Scan} {item : Item}
    (h : pieceOf r? v = some (item, w)) : w = v := by
  cases r? with
  | none => cases h
  | some r => exact (Prod.mk.inj (Option.some.inj h)).2.symm

theorem primitive_steady : Steady d n m 1 UnfinishedPiece (primitive library) (primitive library) := by
  unfold primitive
  refine .flags fun f => .need (fun c => ?_) fun _ _ h => .inl h
  dsimp only
  split
  · refine escape_bind_steady (fun a => ?_) fun a v hv item w h => ?_
    · cases a with
      | literal c byte => exact pieceOf_steady (literalRegex library f c byte)
      | cls set => exact pieceOf_steady (some (.oneOf set))
      | look test => exact pieceOf_steady (some (.look test))
    · have hw : w = v := by
        cases a with
        | literal c byte => exact eq_of_pieceOf (literalRegex library f c byte) h
        | cls set => exact eq_of_pieceOf (some (.oneOf set)) h
        | look test => exact eq_of_pieceOf (some (.look test)) h
      obtain rfl := hw
      rcases hv with hv | ⟨-, hv⟩
      · exact .inl hv
      · exact .inr hv
  · exact .advance bump_steady fun _ => pieceOf_steady (dotRegex f)
  · exact .advance bump_steady fun _ => pieceOf_steady (some _)
  · exact .advance bump_steady fun _ => pieceOf_steady (some _)
  · exact .advance bump_steady fun _ => pieceOf_steady (literalRegex library f c false)

end pieces

end Worksheet.Pattern
