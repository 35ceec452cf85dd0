import Worksheet.Proofs.Pattern.Escapes

set_option autoImplicit false

/-!
# Classes in brackets before a closing text

Members, ranges, names in brackets and colons, and classes inside of classes. A class that the pattern
leaves open takes the closing parenthesis for a member.
-/
namespace Worksheet.Pattern
open Read

def setStart (negated : Bool) : Read (Bool × Gathered) := do
  let g ← leadingHyphens ((← get).rest.length + 1) .start
  if g.count = 0 ∧ (← need) = ']' then
    bumpSpace
    return (negated, g.add (.single ']') 0)
  else return (negated, g)

section classes

variable {d n m : Nat}

theorem leadingHyphens_steady (g : Gathered) :
    Steady d n m 0 (fun _ => Past 0) (leadingHyphens n g) (leadingHyphens m g) := by
  refine Steady.recursion (fun _ => rfl) (fun n m ih g => ?_) n m g
  unfold leadingHyphens
  refine .need (fun c => ?_) fun _ _ h => h
  exact .ite (fun _ => .step bumpSpace_steady fun _ => ih _) fun _ => .pure _

theorem setStart_steady (negated : Bool) :
    Steady d n m 0 (fun _ => Past 0) (setStart negated) (setStart negated) := by
  unfold setStart
  refine .here fun _ _ _ _ => .bind (leadingHyphens_steady .start) fun g =>
    .need (fun c => ?_) fun _ _ h => h
  exact .ite (fun _ => .step bumpSpace_steady fun _ => .pure _) fun _ => .pure _

theorem setOpen_steady : Steady 1 n m 1 (fun _ => Past 0) setOpen setOpen := by
  unfold setOpen
  refine .advance bumpSpace_steady fun _ => .need (fun c => ?_) fun _ _ h => h
  exact .ite (fun _ => .step bumpSpace_steady fun _ => setStart_steady _) fun _ =>
    setStart_steady _

end classes

def rangeOf (f : Flags) (g : Gathered) (first last : Char ⊕ CharClass) : Read Gathered :=
  match first, last with
  | .inl lo, .inl hi => do
    let lo ← setLiteral f lo
    let hi ← setLiteral f hi
    if hi < lo then failure else return g.add (.range lo hi) 0
  | _, _ => failure

section members

variable {d n m : Nat} (library : Library)

theorem setLiteral_steady {lost : Char → Scan → Prop} (f : Flags) (c : Char) :
    Steady d n m 0 lost (setLiteral f c) (setLiteral f c) :=
  .ite (fun _ => .failure) fun _ => .pure _

theorem setMember_steady (f : Flags) :
    Steady d n m 1 (fun _ => Past 1) (setMember library f) (setMember library f) := by
  unfold setMember
  refine .need (fun c => .ite (fun _ => ?_) fun _ => ?_) fun _ _ h => h
  · refine escape_bind_steady (fun a => ?_) fun a v hv b w h => ?_
    · cases a with
      | literal => exact .pure _
      | cls => exact .pure _
      | look => exact .failure
    · -- A word edge is no member of a class, whatever comes behind it.
      rcases hv with hv | ⟨⟨test, rfl⟩, -⟩
      · cases a with
        | literal =>
          obtain ⟨-, rfl⟩ := Prod.mk.inj (Option.some.inj h)
          exact hv
        | cls =>
          obtain ⟨-, rfl⟩ := Prod.mk.inj (Option.some.inj h)
          exact hv
        | look => cases h
      · cases h
  · exact .advance bump_steady fun _ => .stay (setLiteral_steady f c) fun _ => .pure _

/-- What stands behind a hash and the blanks that follow it. -/
def pastHash : List Char → List Char
  | '#' :: cs => cs.dropWhile Text.isBlank
  | cs => cs

theorem pastHash_eq_self {cs : List Char} (h : ∀ ds, cs ≠ '#' :: ds) : pastHash cs = cs := by
  unfold pastHash
  split
  · exact absurd rfl (h _)
  · rfl

theorem pastHash_closing (cs : List Char) : pastHash (cs ++ closing) = pastHash cs ++ closing := by
  cases cs with
  | nil => rfl
  | cons c cs =>
    by_cases hc : c = '#'
    · subst hc
      exact dropWhile_closing (by decide) cs
    · have hne : ∀ {cs ds}, c :: cs ≠ '#' :: ds := fun h => hc (List.cons.inj h).1
      rw [List.cons_append, pastHash_eq_self fun _ => hne, pastHash_eq_self fun _ => hne]
      rfl

def second? (s : Scan) : Option Char :=
  if s.flags.verbose then (pastHash (s.rest.tail.dropWhile Text.isBlank)).head? else s.rest.tail.head?

theorem peekSecond_apply (s : Scan) : peekSecond s = some (second? s, s) := by
  unfold peekSecond second?
  change (if s.flags.verbose then _ else _ : Read (Option Char)) s = _
  split
  · generalize s.rest.tail.dropWhile Text.isBlank = cs
    split
    · rfl
    · rename_i hne
      rw [pastHash_eq_self hne]
      rfl
  · rfl

theorem peekSecond_bind {β : Type} (g : Option Char → Read β) :
    (peekSecond >>= g) = get >>= fun s => g (second? s) := by
  funext s
  rw [bind_apply, peekSecond_apply]
  rfl

theorem tail_head?_closing {cs : List Char} (hpos : 1 ≤ cs.length) {c : Char} (hc : c ≠ ')') :
    (cs ++ closing).tail.head? = some c ↔ cs.tail.head? = some c := by
  rw [List.tail_append_of_ne_nil (List.length_pos_iff.1 hpos)]
  exact head?_closing hc _

theorem two_le_length {cs : List Char} {c : Char} (h : cs.tail.head? = some c) : 2 ≤ cs.length := by
  obtain ⟨ds, htail⟩ := List.head?_eq_some_iff.1 h
  have hlength := congrArg List.length htail
  rw [List.length_tail, List.length_cons] at hlength
  omega

theorem second?_closed {s : Scan} (hpos : 1 ≤ s.rest.length) {c : Char} (hc : c ≠ ')') :
    second? s.closed = some c ↔ second? s = some c := by
  unfold second?
  change (if s.flags.verbose then (pastHash ((s.rest ++ closing).tail.dropWhile Text.isBlank)).head?
    else (s.rest ++ closing).tail.head?) = some c ↔ _
  split
  · rw [List.tail_append_of_ne_nil (List.length_pos_iff.1 hpos), dropWhile_closing (by decide),
      pastHash_closing]
    exact head?_closing hc _
  · exact tail_head?_closing hpos hc

theorem rangeOf_steady {lost : Gathered → Scan → Prop} (f : Flags) (g : Gathered)
    (first last : Char ⊕ CharClass) :
    Steady 0 n m 0 lost (rangeOf f g first last) (rangeOf f g first last) := by
  unfold rangeOf
  split
  · exact .stay (setLiteral_steady f _) fun _ => .stay (setLiteral_steady f _) fun _ =>
      .ite (fun _ => .failure) fun _ => .pure _
  · exact .failure

theorem setRange_steady (f : Flags) (g : Gathered) :
    Steady d n m 1 (fun _ => Past 0) (setRange library f g) (setRange library f g) := by
  have hmember : ∀ {d n m},
      Steady d n m 1 (fun _ => Past 0) (setMember library f) (setMember library f) :=
    (setMember_steady library f).mono (Nat.le_refl _) (Nat.le_refl 1) fun _ _ h => h.mono (Nat.zero_le 1)
  unfold setRange
  refine .bind hmember fun first => .stay space_steady fun _ => .need (fun next => ?_) fun _ _ h => h
  rw [peekSecond_bind]
  refine .get fun s s' hfollows hpos => ?_
  have hsecond : ∀ c, c ≠ ')' → (second? s' = some c ↔ second? s = some c) := by
    intro c hc
    rcases hfollows with hfollows | rfl
    · rw [hfollows.eq_closed hpos]
      exact second?_closed hpos hc
    · exact Iff.rfl
  refine .ite_of_iff (or_congr_right (or_congr (hsecond ']' (by decide)) (hsecond '-' (by decide))))
    (fun _ => ?_) fun _ => ?_
  · cases first with
    | inl c => exact .stay (setLiteral_steady f c) fun _ => .pure _
    | inr r => exact .pure _
  · refine (Steady.step bumpSpace_steady fun _ => .need (fun _ => ?_) fun _ _ h => h).of_le hpos
    exact (Steady.bind hmember fun last => rangeOf_steady f g first last).weaken

end members

def asciiEnd? (negated : Bool) (cs : List Char) (set? : Option CharClass) :
    Option (CharClass × Bool × List Char) :=
  match cs, set? with
  | ':' :: ']' :: rest, some set => some (set, negated, rest)
  | _, _ => none

theorem asciiEnd?_closing (negated : Bool) (c : Char) (cs : List Char) (set? : Option CharClass) :
    asciiEnd? negated (c :: cs ++ closing) set? =
      (asciiEnd? negated (c :: cs) set?).map fun r => (r.1, r.2.1, r.2.2 ++ closing) := by
  by_cases hend : c = ':' ∧ cs.head? = some ']'
  · obtain ⟨rfl, hhead⟩ := hend
    obtain ⟨ds, rfl⟩ := List.head?_eq_some_iff.1 hhead
    cases set? with
    | none => rfl
    | some set => rfl
  · have hnone : ∀ {ds}, (ds.head? = some ']' → cs.head? = some ']') →
        asciiEnd? negated (c :: ds) set? = none := by
      intro ds hds
      unfold asciiEnd?
      split
      · rename_i heq
        obtain ⟨rfl, rfl⟩ := List.cons.inj heq
        exact absurd ⟨rfl, hds rfl⟩ hend
      · rfl
    rw [List.cons_append, hnone (head?_closing (by decide) cs).1, hnone id]
    rfl

def asciiRest? (negated : Bool) (cs : List Char) : Option (CharClass × Bool × List Char) :=
  asciiEnd? negated (cs.dropWhile (· ≠ ':')) (asciiClass? (String.ofList (cs.takeWhile (· ≠ ':'))))

theorem asciiName?_eq (cs : List Char) : asciiName? ('[' :: ':' :: cs) =
    asciiRest? (cs.head? == some '^') (if cs.head? == some '^' then cs.tail else cs) := rfl

theorem asciiName?_eq_none {cs : List Char} (h : ∀ rest, cs ≠ '[' :: ':' :: rest) :
    asciiName? cs = none := by
  unfold asciiName?
  split
  · exact absurd rfl (h _)
  · rfl

theorem asciiRest?_closing (negated : Bool) (cs : List Char) : asciiRest? negated (cs ++ closing) =
    (asciiRest? negated cs).map fun r => (r.1, r.2.1, r.2.2 ++ closing) := by
  unfold asciiRest?
  rw [List.dropWhile_append, List.takeWhile_append]
  cases hdrop : cs.dropWhile (· ≠ ':') with
  | nil => rfl
  | cons c ds =>
    have hshort : (cs.takeWhile (· ≠ ':')).length ≠ cs.length := by
      have hlength :=
        congrArg List.length (List.takeWhile_append_dropWhile (p := (· ≠ ':')) (l := cs))
      rw [hdrop, List.length_append, List.length_cons] at hlength
      omega
    rw [if_neg hshort]
    exact asciiEnd?_closing negated c ds _

theorem asciiName?_closing (cs : List Char) :
    asciiName? (cs ++ closing) = (asciiName? cs).map fun r => (r.1, r.2.1, r.2.2 ++ closing) := by
  by_cases h : ∃ rest, cs = '[' :: ':' :: rest
  · obtain ⟨rest, rfl⟩ := h
    rw [List.cons_append, List.cons_append, asciiName?_eq, asciiName?_eq, ← asciiRest?_closing]
    cases rest with
    | nil => rfl
    | cons c rest =>
      change asciiRest? (some c == some '^') (if some c == some '^' then rest ++ closing else _) =
        asciiRest? (some c == some '^') ((if some c == some '^' then rest else c :: rest) ++ closing)
      split
      · rfl
      · rfl
  · rw [asciiName?_eq_none fun rest hrest => h ⟨rest, hrest⟩]
    refine asciiName?_eq_none fun rest hrest => ?_
    cases cs with
    | nil => cases hrest
    | cons c cs =>
      obtain ⟨rfl, htail⟩ := List.cons.inj hrest
      have hhead : (cs ++ closing).head? = some ':' := congrArg List.head? htail
      obtain ⟨ds, rfl⟩ := List.head?_eq_some_iff.1 ((head?_closing (by decide) cs).1 hhead)
      exact h ⟨ds, rfl⟩

theorem asciiRest?_suffix {cs rest : List Char} {set : CharClass} {negated negated' : Bool}
    (h : asciiRest? negated cs = some (set, negated', rest)) : rest <:+ cs := by
  unfold asciiRest? asciiEnd? at h
  split at h
  · rename_i heq _
    obtain ⟨-, -, rfl⟩ := by simpa using h
    have hsuffix := List.dropWhile_suffix (l := cs) (· ≠ ':')
    rw [heq] at hsuffix
    exact ((List.suffix_cons _ _).trans (List.suffix_cons _ _)).trans hsuffix
  · cases h

theorem asciiName?_suffix {cs rest : List Char} {set : CharClass} {negated : Bool}
    (h : asciiName? cs = some (set, negated, rest)) : rest <:+ cs ∧ rest.length + 1 ≤ cs.length := by
  by_cases hopen : ∃ rest, cs = '[' :: ':' :: rest
  · obtain ⟨inner, rfl⟩ := hopen
    rw [asciiName?_eq] at h
    have hinner : rest <:+ inner := by
      refine (asciiRest?_suffix h).trans ?_
      split
      · exact List.tail_suffix inner
      · exact List.suffix_rfl
    refine ⟨(hinner.trans (List.suffix_cons _ _)).trans (List.suffix_cons _ _), ?_⟩
    have hlength := hinner.length_le
    simp only [List.length_cons]
    omega
  · rw [asciiName?_eq_none fun rest hrest => hopen ⟨rest, hrest⟩] at h
    cases h

def nestedClass (library : Library) (n : Nat) (negated : Bool) (g : Gathered) :
    Read (CharClass × Nat) := do
  let (inner, g') ← setOpen
  let (set, depth) ← setBody library n inner g'
  setBody library n negated (g.add set depth)

section bodies

variable {d n m : Nat} (library : Library)

/-- A class in brackets and colons is taken, or something else is read there. -/
def namedOr {β : Type} (named : CharClass → Bool → Read β) (other : Read β) : Read β := do
  match asciiName? (← get).rest with
  | some (set, negated, rest) =>
    modify fun s => { s with rest := rest }
    named set negated
  | none => other

theorem namedOr_of_some {β : Type} {named : CharClass → Bool → Read β} {other : Read β} {s : Scan}
    {set : CharClass} {negated : Bool} {rest : List Char}
    (h : asciiName? s.rest = some (set, negated, rest)) :
    namedOr named other s = named set negated { s with rest := rest } := by
  unfold namedOr
  change (match asciiName? s.rest with | some (set, negated, rest) => _ | none => _ : Read β) s = _
  rw [h]
  rfl

theorem namedOr_of_none {β : Type} {named : CharClass → Bool → Read β} {other : Read β} {s : Scan}
    (h : asciiName? s.rest = none) : namedOr named other s = other s := by
  unfold namedOr
  change (match asciiName? s.rest with | some (set, negated, rest) => _ | none => _ : Read β) s = _
  rw [h]

theorem namedOr_takes {β : Type} {named : CharClass → Bool → Read β} {other : Read β}
    (hnamed : ∀ set negated, Takes 0 0 (named set negated)) (hother : Takes 1 1 other) :
    Takes 1 1 (namedOr named other) := by
  intro s b w hs h
  cases hname : asciiName? s.rest with
  | none =>
    rw [namedOr_of_none hname] at h
    exact hother s b w hs h
  | some r =>
    obtain ⟨set, negated, rest⟩ := r
    rw [namedOr_of_some hname] at h
    obtain ⟨hsuffix, hlength⟩ := asciiName?_suffix hname
    obtain ⟨hw, -⟩ := hnamed set negated _ b w (Nat.zero_le _) h
    have hwlength : w.rest.length ≤ rest.length := hw.length_le
    exact ⟨hw.trans hsuffix, by omega⟩

theorem namedOr_steady {β : Type} {lost : β → Scan → Prop}
    {named named' : CharClass → Bool → Read β} {other other' : Read β}
    (hnamed : ∀ set negated, Steady 0 n m 0 lost (named set negated) (named' set negated))
    (hother : Steady 1 (n + 1) (m + 1) 1 lost other other') :
    Steady 1 (n + 1) (m + 1) 1 lost (namedOr named other) (namedOr named' other') := by
  refine ⟨namedOr_takes (fun set negated => (hnamed set negated).left) hother.left,
    namedOr_takes (fun set negated => (hnamed set negated).right) hother.right,
    fun {s s'} hfollows hs hn hm => ?_⟩
  obtain rfl := hfollows.eq_closed hs
  have hclosing := asciiName?_closing s.rest
  cases hname : asciiName? s.rest with
  | none =>
    rw [hname] at hclosing
    rw [namedOr_of_none hname, namedOr_of_none (s := s.closed) hclosing]
    exact hother.alike hfollows hs hn hm
  | some r =>
    obtain ⟨set, negated, rest⟩ := r
    rw [hname] at hclosing
    rw [namedOr_of_some hname, namedOr_of_some (s := s.closed) hclosing]
    have hlength := (asciiName?_suffix hname).2
    have hlength' : (rest ++ closing).length + 1 ≤ s.closed.rest.length :=
      (asciiName?_suffix hclosing).2
    exact (hnamed set negated).alike (.closed { s with rest := rest }) (Nat.zero_le _)
      (show rest.length < n by omega) (show (rest ++ closing).length < m by omega)

theorem setBody_steady (negated : Bool) (g : Gathered) :
    Steady d n m 1 (fun _ => Past 1) (setBody library n negated g) (setBody library m negated g) := by
  refine Steady.recursion (R := fun n (i : Bool × Gathered) => setBody library n i.1 i.2) (fun _ => rfl)
    (fun n m ih i => ?_) n m (negated, g)
  obtain ⟨negated, g⟩ := i
  unfold setBody
  refine .flags fun f => .stay space_steady fun _ => .need (fun c => .get fun s s' hfollows hpos => ?_)
    fun _ _ h => h
  have hsecond : ∀ x, x ≠ ')' → (s'.rest.tail.head? = some x ↔ s.rest.tail.head? = some x) := by
    intro x hx
    rcases hfollows with hfollows | rfl
    · rw [hfollows.eq_closed hpos]
      exact tail_head?_closing hpos hx
    · exact Iff.rfl
  have hop : ∀ {op x}, s.rest.tail.head? = some x → Steady s.rest.length (n + 1) (m + 1) 1
      (fun _ => Past 1) (bump >>= fun _ => bump >>= fun _ => setBody library n negated (g.operate library f op))
      (bump >>= fun _ => bump >>= fun _ => setBody library m negated (g.operate library f op)) := fun {op x} hx =>
    (behindTwo_steady (ih (negated, g.operate library f op)).weaken).of_le (two_le_length hx)
  refine .ite (fun _ => ?_) fun _ => .ite (fun _ => ?_) fun _ =>
    .ite_of_iff (and_congr_right fun _ => hsecond '&' (by decide)) (fun h => hop h.2) fun _ =>
    .ite_of_iff (and_congr_right fun _ => hsecond '-' (by decide)) (fun h => hop h.2) fun _ =>
    .ite_of_iff (and_congr_right fun _ => hsecond '~' (by decide)) (fun h => hop h.2) fun _ => ?_
  · have hnested : Steady 1 (n + 1) (m + 1) 1 (fun _ => Past 1) (nestedClass library n negated g)
        (nestedClass library m negated g) := by
      refine .bind_taking setOpen_steady fun inner => ?_
      exact .bind_of_past (ih inner) (fun set => (ih (negated, g.add set.1 set.2)).weaken)
        (Nat.le_succ n) (Nat.le_succ m) (Nat.le_refl 1) fun _ _ h => h
    refine (namedOr_steady (fun set negated' => ?_) hnested).of_le hpos
    have hrest := ih
      (negated, g.add (if negated' then (library.fold f set).negate else library.fold f set) 0)
    exact .ite (fun _ => .failure) fun _ => hrest.weaken
  · refine (Steady.advance bump_steady fun _ => ?_).of_le hpos
    exact .ite (fun _ => .failure) fun _ => .pure _
  · have hlast : Steady s.rest.length (n + 1) (m + 1) 1 (fun _ => Past 1)
        (setRange library f g >>= fun g => setBody library n negated g)
        (setRange library f g >>= fun g => setBody library m negated g) :=
      .bind_taking (setRange_steady library f g) fun g => ih (negated, g)
    exact hlast

end bodies

end Worksheet.Pattern
