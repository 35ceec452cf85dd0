import Worksheet.Config
import Worksheet.Proofs.Pattern.Groups
import Worksheet.Proofs.Pattern.Matching

set_option autoImplicit false

/-!
# Patterns for whole names

The pattern of a configuration is put, as text, into a group between the start and the end of the name.
Where it closes no group but its own ones, it means there what it means by itself, and the names that
are accepted are those that it matches as a whole. It has to leave the group its closing parenthesis,
and room for the group within the bounds of the library.
-/
namespace Worksheet
namespace Pattern
open Read

/-- A pattern, and behind it a parenthesis that closes no group. -/
def ClosesUnopened (library : Library) (text : String) : Prop :=
  ∃ item rest, front? library text = some (item, ')' :: rest)

/-- The text behind a pattern is a part of it. -/
def EndsInComment (library : Library) (text : String) : Prop :=
  front? library (text ++ ")$") = front? library text

/-- Where the reader succeeds, it stops at the end or before a closing parenthesis. -/
def Stops {α : Type} (f : Read α) : Prop :=
  ∀ s a u, f s = some (a, u) → u.rest = [] ∨ u.rest.head? = some ')'

theorem Stops.bind {α β : Type} {f : Read α} {g : α → Read β} (h : ∀ a, Stops (g a)) :
    Stops (f >>= g) := by
  intro s b w hresult
  obtain ⟨a, u, -, hrest⟩ := bind_eq_some.1 hresult
  exact h a u b w hrest

section

variable {library : Library}

theorem body_stops (n : Nat) (branches items : List Item) : Stops (body library n branches items) := by
  induction n generalizing branches items with
  | zero => exact fun _ _ _ h => nomatch h
  | succ n ih =>
    have hrepeat : ∀ least greatest, Stops (repeatLast items least greatest >>= fun items =>
        body library n branches items) := fun _ _ => .bind fun items => ih branches items
    unfold body
    refine .bind fun _ s a u h => ?_
    rw [peek_bind] at h
    revert h
    generalize hhead : s.rest.head? = next
    split
    · intro h
      obtain ⟨-, rfl⟩ := Prod.mk.inj (Option.some.inj h)
      exact .inl (List.head?_eq_none_iff.1 hhead)
    · intro h
      obtain ⟨-, rfl⟩ := Prod.mk.inj (Option.some.inj h)
      exact .inr hhead
    · exact Stops.bind (fun _ => ih _ _) s a u
    · refine Stops.bind (fun outer => .bind fun opened => .bind fun _ => ?_) s a u
      split
      · exact ih _ _
      · exact .bind fun _ => .bind fun _ => .bind fun _ => ih _ _
    · exact Stops.bind (fun _ => ih _ _) s a u
    · exact Stops.bind (fun _ => hrepeat _ _) s a u
    · exact Stops.bind (fun _ => hrepeat _ _) s a u
    · exact Stops.bind (fun _ => hrepeat _ _) s a u
    · exact Stops.bind (fun _ => hrepeat _ _) s a u
    · exact Stops.bind (fun _ => ih _ _) s a u

theorem body_eq_of_some {n m : Nat} {branches items : List Item} {s : Scan} {r r' : Item × Scan}
    (hn : s.rest.length < n) (hm : s.rest.length < m) (h : body library n branches items s = some r)
    (h' : body library m branches items s = some r') : r = r' := by
  have hsteady : ∀ {k}, s.rest.length < k → Alike (fun _ => Past 1) (body library k branches items s)
      (body library (s.closed.rest.length + 1) branches items s.closed) := fun hk =>
    (body_steady library branches items).alike (.closed s) (Nat.zero_le _) hk (Nat.lt_succ_self _)
  have hfirst := hsteady hn
  have hsecond := hsteady hm
  rw [h] at hfirst
  rw [h'] at hsecond
  generalize body library (s.closed.rest.length + 1) branches items s.closed = o at hfirst hsecond
  cases hfirst with
  | both hu =>
    cases hsecond with
    | both hu' => rw [hu.left_unique hu']

theorem body_closed (library : Library) (pattern : String) {m : Nat} (hm : pattern.length + 2 < m) :
    Alike (fun _ => Past 1) (body library (2 * pattern.length + 2) [] [] ⟨pattern.toList, .initial, []⟩)
      (body library m [] [] ⟨pattern.toList ++ closing, .initial, []⟩) := by
  have hlength : pattern.toList.length = pattern.length := String.length_toList
  refine (body_steady library [] []).alike (.closed ⟨pattern.toList, .initial, []⟩) (Nat.zero_le _) ?_ ?_
  · change pattern.toList.length < _
    omega
  · change (pattern.toList ++ closing).length < m
    rw [List.length_append, hlength]
    exact hm

theorem past_of_front?_eq_none {pattern : String} {m : Nat} {item : Item} {v : Scan}
    (hm : pattern.length + 2 < m) (h : front? library pattern = none)
    (hbody : body library m [] [] ⟨pattern.toList ++ closing, .initial, []⟩ = some (item, v)) :
    Past 1 v := by
  have halike := body_closed library pattern hm
  rw [Option.map_eq_none_iff.1 h, hbody] at halike
  cases halike with
  | alone h => exact h item v rfl

theorem body_closed_of_front? {pattern : String} {m : Nat} {item : Item}
    (hm : pattern.length + 2 < m) (h : front? library pattern = some (item, [])) :
    ∃ v, body library m [] [] ⟨pattern.toList ++ closing, .initial, []⟩ = some (item, v) ∧
      (EndsInComment library pattern → v.rest = []) ∧
      (¬EndsInComment library pattern → v.rest = closing) := by
  obtain ⟨⟨item', u⟩, hbody, heq⟩ := Option.map_eq_some_iff.1 h
  obtain ⟨rfl, hu⟩ := Prod.mk.inj heq
  have hfollows : ∀ {k}, pattern.length + 2 < k →
      ∃ v, body library k [] [] ⟨pattern.toList ++ closing, .initial, []⟩ = some (item', v) ∧
        Follows u v := by
    intro k hk
    have halike := body_closed library pattern hk
    rw [hbody] at halike
    generalize body library k [] [] ⟨pattern.toList ++ closing, .initial, []⟩ = o at halike
    cases halike with
    | both h => exact ⟨_, rfl, h⟩
  obtain ⟨v, hv, hfollows'⟩ := hfollows hm
  refine ⟨v, hv, ?_⟩
  have hend : front? library (pattern ++ ")$") = some (item', v.rest) := by
    have htext : (pattern ++ ")$").toList = pattern.toList ++ closing := String.toList_append
    have hlength : (pattern ++ ")$").length = pattern.length + 2 := String.length_append _ _
    have hrest : (pattern.toList ++ closing).length = pattern.length + 2 := by
      rw [← htext, String.length_toList, hlength]
    obtain ⟨v', hv', -⟩ := hfollows (k := 2 * (pattern.length + 2) + 2) (by omega)
    have hsame : (item', v') = (item', v) := body_eq_of_some
      (show (pattern.toList ++ closing).length < 2 * (pattern.length + 2) + 2 by omega)
      (show (pattern.toList ++ closing).length < m by omega) hv' hv
    unfold front?
    rw [htext, hlength, hv', hsame]
    rfl
  unfold EndsInComment
  rw [hend, h]
  replace hu : u.rest = [] := hu
  cases hfollows' with
  | closed =>
    have hclosing : u.closed.rest = closing := by simp [Scan.closed, hu]
    rw [hclosing]
    refine ⟨fun h => ?_, fun _ => rfl⟩
    cases h
  | ended =>
    rw [hu]
    exact ⟨fun _ => rfl, fun h => absurd rfl h⟩

theorem expect_eq_none {v : Scan} (h : v.rest.head? ≠ some ')') : expect ')' v = none := by
  unfold expect
  cases hrest : v.rest with
  | nil => rw [bind_apply, need_nil hrest, Option.bind_none]
  | cons c cs =>
    rw [hrest] at h
    have hc : c ≠ ')' := fun hc => h (congrArg some hc)
    rw [bind_apply, need_cons hrest, Option.bind_some, if_neg hc]
    rfl

theorem head?_of_past {v : Scan} (h : Past 1 v) : v.rest.head? ≠ some ')' := by
  obtain ⟨hsuffix, hlength⟩ := h
  replace hlength : v.rest.length ≤ 1 := Nat.le_of_succ_le_succ hlength
  intro hhead
  obtain ⟨cs, hrest⟩ := List.head?_eq_some_iff.1 hhead
  rw [hrest] at hsuffix hlength
  obtain rfl : cs = [] := List.length_eq_zero_iff.1 (Nat.le_zero.1 (Nat.le_of_succ_le_succ hlength))
  exact absurd hsuffix (by decide)

theorem read?_eq_some_iff {text : String} {r : Regex} : read? library text = some r ↔
    ∃ item, front? library text = some (item, []) ∧ library.fits text item = true ∧
      item.regex = r := by
  unfold read?
  cases front? library text with
  | none => simp
  | some found =>
    obtain ⟨item, rest⟩ := found
    cases rest with
    | nil => simp
    | cons c cs => simp

theorem not_closesUnopened_of_front? {text : String} {item : Item}
    (h : front? library text = some (item, [])) : ¬ClosesUnopened library text := by
  rintro ⟨item', rest, hclose⟩
  rw [h] at hclose
  cases hclose

def Regex.whole (r : Regex) : Regex := .seq (.look .textStart) (.seq (.group r) (.look .textEnd))

/-- The group takes one level of nesting, and its row with the two ends another one. -/
def Item.whole (item : Item) : Item := ⟨item.regex.whole, item.depth + 2, false⟩

theorem body_wholeName (N : Nat) (cs : List Char) :
    body library (N + 4) [] [] ⟨'^' :: '(' :: '?' :: ':' :: cs, .initial, []⟩ =
      (body library (N + 2) [] [] ⟨cs, .initial, []⟩).bind fun r =>
        (expect ')' >>= fun _ => setFlags .initial >>= fun _ =>
          body library (N + 2) []
            [⟨.group r.1.regex, r.1.depth + 1, false⟩, ⟨.look .textStart, 0, false⟩]) r.2 :=
  rfl

theorem body_textEnd (N : Nat) (item : Item) (names : List (List Char)) :
    body library (N + 2) []
      [⟨.group item.regex, item.depth + 1, false⟩, ⟨.look .textStart, 0, false⟩] ⟨['$'], .initial, names⟩ =
        some (item.whole, ⟨[], .initial, names⟩) := rfl

theorem front?_wholeName (pattern : String) : front? library (Config.wholeName pattern) =
    ((body library (2 * pattern.length + 12) [] [] ⟨pattern.toList ++ closing, .initial, []⟩).bind fun r =>
      (expect ')' >>= fun _ => setFlags .initial >>= fun _ => body library (2 * pattern.length + 12) []
        [⟨.group r.1.regex, r.1.depth + 1, false⟩, ⟨.look .textStart, 0, false⟩]) r.2).map
      fun r => (r.1, r.2.rest) := by
  have htext : (Config.wholeName pattern).toList =
      '^' :: '(' :: '?' :: ':' :: (pattern.toList ++ closing) := by
    unfold Config.wholeName
    rw [String.toList_append, String.toList_append]
    rfl
  have hlength : (Config.wholeName pattern).length = pattern.length + 6 := by
    rw [← String.length_toList, htext]
    simp only [List.length_cons, List.length_append, String.length_toList]
    rfl
  unfold front?
  rw [htext, hlength]
  exact congrArg _ (body_wholeName (2 * pattern.length + 10) _)

theorem front?_wholeName_of_body {pattern : String} {item : Item} {v : Scan}
    (h : body library (2 * pattern.length + 12) [] [] ⟨pattern.toList ++ closing, .initial, []⟩ =
      some (item, v)) :
    (v.rest.head? ≠ some ')' → front? library (Config.wholeName pattern) = none) ∧
      (v.rest = closing →
        front? library (Config.wholeName pattern) = some (item.whole, [])) := by
  rw [front?_wholeName, h, Option.bind_some, bind_apply]
  constructor
  · intro hhead
    rw [expect_eq_none hhead]
    rfl
  · intro hrest
    obtain ⟨rest, flags, names⟩ := v
    obtain rfl : rest = closing := hrest
    have hexpect : expect ')' ⟨closing, flags, names⟩ = some ((), ⟨['$'], flags, names⟩) := rfl
    have hflags : setFlags .initial ⟨['$'], flags, names⟩ = some ((), ⟨['$'], .initial, names⟩) := rfl
    dsimp only
    rw [hexpect, Option.bind_some, bind_apply, hflags, Option.bind_some, body_textEnd]
    rfl

/-- A pattern that closes no group it did not open is read as a part of the whole expression. -/
theorem front?_wholeName_eq_some_iff {pattern : String} (hbalanced : ¬ClosesUnopened library pattern)
    {outer : Item} {rest : List Char} : front? library (Config.wholeName pattern) = some (outer, rest) ↔
      ∃ item, front? library pattern = some (item, []) ∧ ¬EndsInComment library pattern ∧
        outer = item.whole ∧ rest = [] := by
  cases hfront : front? library pattern with
  | none =>
    have hnone : front? library (Config.wholeName pattern) = none := by
      cases hbody : body library (2 * pattern.length + 12) [] []
          ⟨pattern.toList ++ closing, .initial, []⟩ with
      | none =>
        rw [front?_wholeName, hbody]
        rfl
      | some result =>
        obtain ⟨item, v⟩ := result
        have hpast := past_of_front?_eq_none (by omega) hfront hbody
        exact (front?_wholeName_of_body hbody).1 (head?_of_past hpast)
    simp [hnone]
  | some result =>
    obtain ⟨item, left⟩ := result
    have hleft : left = [] := by
      obtain ⟨⟨item', u⟩, hbody, heq⟩ := Option.map_eq_some_iff.1 hfront
      obtain ⟨rfl, rfl⟩ := Prod.mk.inj heq
      rcases body_stops _ _ _ _ _ _ hbody with hnil | hclose
      · exact hnil
      · obtain ⟨more, hmore⟩ := List.head?_eq_some_iff.1 hclose
        exact absurd ⟨item', more, hfront.trans (by rw [hmore])⟩ hbalanced
    subst hleft
    obtain ⟨v, hbody, hcomment, hclosing⟩ :=
      body_closed_of_front? (m := 2 * pattern.length + 12) (by omega) hfront
    by_cases hend : EndsInComment library pattern
    · have hhead : v.rest.head? ≠ some ')' := by
        rw [hcomment hend]
        intro h
        cases h
      rw [(front?_wholeName_of_body hbody).1 hhead]
      simp [hend]
    · rw [(front?_wholeName_of_body hbody).2 (hclosing hend)]
      simp [hend, eq_comm]

theorem read?_wholeName_eq_some_iff {pattern : String} (hbalanced : ¬ClosesUnopened library pattern)
    {r : Regex} :
    read? library (Config.wholeName pattern) = some r ↔ ∃ item, front? library pattern = some (item, []) ∧
      ¬EndsInComment library pattern ∧ library.fits (Config.wholeName pattern) item.whole = true ∧
      item.regex.whole = r := by
  rw [read?_eq_some_iff]
  constructor
  · rintro ⟨outer, hfront, hfits, rfl⟩
    obtain ⟨item, hitem, hend, rfl, -⟩ := (front?_wholeName_eq_some_iff hbalanced).1 hfront
    exact ⟨item, hitem, hend, hfits, rfl⟩
  · rintro ⟨item, hitem, hend, hfits, rfl⟩
    have hfront := (front?_wholeName_eq_some_iff hbalanced).2 ⟨item, hitem, hend, rfl, rfl⟩
    exact ⟨_, hfront, hfits, rfl⟩

end

end Pattern

open Pattern

theorem Config.rules_eq_ok_iff (library : Library) (c : Config) {pattern : String}
    (hpattern : c.namePattern = some pattern) {r : Rules} :
    c.rules library = .ok r ↔ ∃ regex, read? library (wholeName pattern) = some regex ∧
      r = ⟨c.version, c.letterCase, some regex, c.maxNameLength⟩ := by
  unfold Config.rules
  rw [hpattern]
  dsimp only
  cases read? library (wholeName pattern) with
  | none => simp
  | some regex => simp [eq_comm]

theorem Rules.accepts_iff {version : String} {letterCase : NameCase} {regex : Regex}
    {maxLength : Option Nat} {name : String} :
    (Rules.mk version letterCase (some regex) maxLength).accepts name = true ↔
      (∀ n, maxLength = some n → name.utf8ByteSize ≤ n) ∧ regex.occursIn name = true := by
  unfold Rules.accepts
  rw [Bool.and_eq_true]
  refine and_congr_left fun _ => ?_
  cases maxLength with
  | none => simp
  | some n => simp

/-- With any library, where a pattern closes no group that it did not open, it can be set exactly if it
is a pattern by itself, does not end in a comment, and leaves room for the group around it within the bounds
of the library. A name is accepted then exactly if it is short enough and the pattern matches all of it. -/
theorem Config.rules_wholeName (library : Library) (c : Config) {pattern : String}
    (hpattern : c.namePattern = some pattern) (hbalanced : ¬ClosesUnopened library pattern) :
    ((∃ r, c.rules library = .ok r) ↔ ∃ item, front? library pattern = some (item, []) ∧
      ¬EndsInComment library pattern ∧ library.fits (wholeName pattern) item.whole = true) ∧
    ∀ r, c.rules library = .ok r → ∃ item, front? library pattern = some (item, []) ∧
      ∀ name, r.accepts name = true ↔ (∀ n, c.maxNameLength = some n → name.utf8ByteSize ≤ n) ∧
        item.regex.MatchesWhole name := by
  constructor
  · constructor
    · rintro ⟨r, hr⟩
      obtain ⟨regex, hread, -⟩ := (c.rules_eq_ok_iff library hpattern).1 hr
      obtain ⟨item, hitem, hend, hfits, -⟩ := (read?_wholeName_eq_some_iff hbalanced).1 hread
      exact ⟨item, hitem, hend, hfits⟩
    · rintro ⟨item, hitem, hend, hfits⟩
      have hread := (read?_wholeName_eq_some_iff hbalanced).2 ⟨item, hitem, hend, hfits, rfl⟩
      exact ⟨_, (c.rules_eq_ok_iff library hpattern).2 ⟨_, hread, rfl⟩⟩
  · intro r hr
    obtain ⟨regex, hread, rfl⟩ := (c.rules_eq_ok_iff library hpattern).1 hr
    obtain ⟨item, hitem, -, -, rfl⟩ := (read?_wholeName_eq_some_iff hbalanced).1 hread
    refine ⟨item, hitem, fun name => ?_⟩
    rw [Rules.accepts_iff]
    exact and_congr_right fun _ => item.regex.occursIn_between_ends name

def optionalSecond : Config := ⟨"default", .preserve, some "ab?", some 3⟩

theorem Config.rules_wholeName_optionalSecond :
    optionalSecond.namePattern = some "ab?" ∧ ¬ClosesUnopened .basic "ab?" ∧
      (∃ r, optionalSecond.rules = .ok r) ∧
      ∀ r, optionalSecond.rules = .ok r → ∃ item, front? .basic "ab?" = some (item, []) ∧ ∀ name,
        r.accepts name = true ↔
          (∀ n, some 3 = some n → name.utf8ByteSize ≤ n) ∧ item.regex.MatchesWhole name := by
  have hbalanced : ¬ClosesUnopened .basic "ab?" := not_closesUnopened_of_front? (by rfl)
  have hend : ¬EndsInComment .basic "ab?" := by
    intro h
    have hsame := congrArg (Option.map Prod.snd) h
    cases hsame
  obtain ⟨hset, haccepts⟩ := Config.rules_wholeName .basic optionalSecond rfl hbalanced
  exact ⟨rfl, hbalanced, hset.2 ⟨_, rfl, hend, by decide⟩, haccepts⟩

/-- The text of the setting is put between the two ends as it is. One that ends the group itself can be set
without being a pattern, and accepts names of which a part is matched. A comment swallows the end of the
group, and a pattern that ends in one cannot be set. -/
theorem Config.rules_wholeName_spliced :
    (read? .basic "a)|(?:b" = none ∧
      ∃ r, Config.rules ⟨"default", .preserve, some "a)|(?:b", none⟩ = .ok r ∧
        r.accepts "ax" = true) ∧
    ((read? .basic "(?x)a # letter").isSome = true ∧ ∀ r,
      Config.rules ⟨"default", .preserve, some "(?x)a # letter", none⟩ ≠ .ok r) :=
  ⟨⟨rfl, _, rfl, rfl⟩, rfl, fun _ h => nomatch h⟩

end Worksheet
