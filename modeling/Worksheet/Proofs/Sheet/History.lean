import Worksheet.Proofs.Sheet.Reopening

set_option autoImplicit false

/-!
# Histories of a sheet

A sheet holds no more of its past than its contents. However two sheets came to the same contents, they
agree in everything else.
-/
namespace Worksheet.Sheet
open Relation

def Accepts (s : Sheet) (edit : String × String) : Prop :=
  ∃ t order, s.set edit.1 edit.2 = .ok (t, order)

/-- Made one after the other in both sheets, each of the edits is accepted in both or in neither. What an
earlier edit wrote may decide whether a later one would close a loop. -/
def SameOutcomes (s t : Sheet) : List (String × String) → Prop
  | [] => True
  | edit :: edits =>
    (s.Accepts edit ↔ t.Accepts edit) ∧ SameOutcomes (s.attempt edit) (t.attempt edit) edits

/-- The contents of two sheets agree, up to those of one cell. -/
def AgreeOff (n : String) (s t : Sheet) : Prop := ∀ m, m ≠ n → s.contentOf m = t.contentOf m

section attempts

variable {s t : Sheet} {edit : String × String}

theorem attempt_of_not_accepts (h : ¬s.Accepts edit) : s.attempt edit = s := by
  rw [attempt_eq]
  split
  · rename_i t order he
    exact absurd ⟨t, order, he⟩ h
  · rfl

theorem contentOf_attempt (h : s.Accepts edit) :
    ∃ c, Content.classify s.rules.naming edit.2 = .ok c ∧ ∀ m, (s.attempt edit).contentOf m =
      if m = s.rules.normalize edit.1 then c else s.contentOf m := by
  obtain ⟨t, order, he⟩ := h
  obtain ⟨n, c, hn, hc, -, rfl⟩ := set_eq_ok he
  obtain ⟨rfl, -⟩ := cellName_eq_ok.1 hn
  refine ⟨c, hc, fun m => ?_⟩
  simp only [attempt_eq, he]
  rw [contentOf_recalculate, contentOf_commit]

theorem agreeOff_attempt (s : Sheet) (edit : String × String) :
    AgreeOff (s.rules.normalize edit.1) (s.attempt edit) s := by
  intro m hm
  by_cases h : s.Accepts edit
  · obtain ⟨c, -, hcontent⟩ := contentOf_attempt h
    rw [hcontent, if_neg hm]
  · rw [attempt_of_not_accepts h]

theorem rules_attempt (s : Sheet) (edit : String × String) : (s.attempt edit).rules = s.rules := by
  by_cases h : s.Accepts edit
  · obtain ⟨t, order, he⟩ := h
    obtain ⟨n, c, -, -, -, rfl⟩ := set_eq_ok he
    simp only [attempt_eq, he]
    exact rules_recalculate _ _
  · rw [attempt_of_not_accepts h]

theorem AgreeOff.attempt {n : String} (hrules : s.rules = t.rules) (h : AgreeOff n s t)
    (hsame : s.Accepts edit ↔ t.Accepts edit) : AgreeOff n (s.attempt edit) (t.attempt edit) := by
  intro m hm
  by_cases hs : s.Accepts edit
  · obtain ⟨c, hc, hcontent⟩ := contentOf_attempt hs
    obtain ⟨d, hd, hcontent'⟩ := contentOf_attempt (hsame.1 hs)
    rw [← hrules, hc] at hd
    rw [hcontent, hcontent', ← hrules, Except.ok.inj hd, h m hm]
  · rw [attempt_of_not_accepts hs, attempt_of_not_accepts (mt hsame.2 hs)]
    exact h m hm

theorem AgreeOff.foldl_attempt {n : String} {edits : List (String × String)}
    (hrules : s.rules = t.rules) (h : AgreeOff n s t) (hsame : SameOutcomes s t edits) :
    AgreeOff n (edits.foldl Sheet.attempt s) (edits.foldl Sheet.attempt t) := by
  induction edits generalizing s t with
  | nil => exact h
  | cons edit edits ih =>
    refine ih ?_ (h.attempt hrules hsame.1) hsame.2
    rw [rules_attempt, rules_attempt, hrules]

theorem Sound.accepts_iff (hs : s.Sound) {name raw n : String} {c : Content}
    (hn : s.cellName name = .ok n) (hc : Content.classify s.rules.naming raw = .ok c) :
    s.Accepts (name, raw) ↔ ¬TransGen (Follows (s.prospective n c.vars)) n n := by
  rcases set_answers hs.consistent hn hc with ⟨order, he, hloop, -⟩ | ⟨loop, he, hloop⟩
  · exact iff_of_true ⟨_, _, he⟩ hloop
  · refine iff_of_false ?_ (not_not.2 hloop.transGen)
    rintro ⟨t, order, he'⟩
    cases he.symm.trans he'

/-- Whether an edit is accepted does not depend on what its cell holds before. -/
theorem AgreeOff.accepts (hs : s.Sound) (ht : t.Sound) (hrules : s.rules = t.rules)
    (h : AgreeOff (s.rules.normalize edit.1) s t) (ha : s.Accepts edit) : t.Accepts edit := by
  obtain ⟨_, _, he⟩ := ha
  obtain ⟨n, c, hn, hc, -, -⟩ := set_eq_ok he
  obtain ⟨hnormal, haccepts⟩ := cellName_eq_ok.1 hn
  rw [hnormal] at h
  have edges : Follows (t.prospective n c.vars) = Follows (s.prospective n c.vars) := by
    funext u v
    rw [follows_prospective, follows_prospective]
    by_cases hv : v = n
    · simp [hv]
    · simp only [hv, ht.follows_iff, hs.follows_iff, h v hv]
  have hn' : t.cellName edit.1 = .ok n := cellName_eq_ok.2 (hrules ▸ ⟨hnormal, haccepts⟩)
  have hc' : Content.classify t.rules.naming edit.2 = .ok c := hrules ▸ hc
  rw [ht.accepts_iff hn' hc', edges]
  exact (hs.accepts_iff hn hc).1 ⟨_, _, he⟩

end attempts

section histories

variable {rules : Rules} {edits edits' : List (String × String)}

theorem afterEdits_append (rules : Rules) (edits more : List (String × String)) :
    afterEdits rules (edits ++ more) = more.foldl attempt (afterEdits rules edits) :=
  List.foldl_append

theorem contentOf_afterEdits_concat {edit : String × String}
    (h : (afterEdits rules edits).Accepts edit) : ∃ c, Content.classify rules.naming edit.2 = .ok c ∧
      ∀ m, (afterEdits rules (edits ++ [edit])).contentOf m =
        if m = rules.normalize edit.1 then c else (afterEdits rules edits).contentOf m := by
  obtain ⟨c, hc, hcontent⟩ := contentOf_attempt h
  rw [rules_afterEdits] at hc hcontent
  rw [afterEdits_append]
  exact ⟨c, hc, hcontent⟩

theorem accepts_of_vars {name raw n : String} {c : Content}
    (hn : (afterEdits rules edits).cellName name = .ok n)
    (hc : Content.classify rules.naming raw = .ok c) (hvars : c.vars = []) :
    (afterEdits rules edits).Accepts (name, raw) := by
  rw [← rules_afterEdits rules edits] at hc
  rw [(afterEdits_sound rules edits).accepts_iff hn hc, transGen_prospective, hvars]
  rintro ⟨v, hv, -⟩
  cases hv

theorem contentOf_afterEdits_of_vars {name raw n : String} {c : Content}
    (hn : (afterEdits rules edits).cellName name = .ok n)
    (hc : Content.classify rules.naming raw = .ok c) (hvars : c.vars = []) (m : String) :
    (afterEdits rules (edits ++ [(name, raw)])).contentOf m =
      if m = n then c else (afterEdits rules edits).contentOf m := by
  obtain ⟨d, hd, hcontent⟩ := contentOf_afterEdits_concat (accepts_of_vars hn hc hvars)
  obtain rfl : c = d := Except.ok.inj (hc.symm.trans hd)
  have hnormal := (cellName_eq_ok.1 hn).1
  rw [rules_afterEdits] at hnormal
  rw [hcontent, hnormal]

theorem afterEdits_alike
    (h : ∀ n, (afterEdits rules edits).contentOf n = (afterEdits rules edits').contentOf n) :
    (afterEdits rules edits).Alike (afterEdits rules edits') :=
  alike_of_contentOf (afterEdits_sound rules edits) (afterEdits_sound rules edits')
    (afterEdits_tidy rules edits) (afterEdits_tidy rules edits') h

theorem Alike.snapshot {s t : Sheet} (h : s.Alike t) (hrules : s.rules = t.rules) :
    s.snapshot = t.snapshot := by
  unfold Sheet.snapshot version
  rw [hrules, h.names]
  congr 1
  refine List.map_congr_left fun n _ => ?_
  rw [h.contentOf]

/-- The edits that enter the contents of a sheet once more, each cell once, in sheet order. -/
def entries (s : Sheet) : List (String × String) :=
  s.snapshot.records.map fun r => (r.name, r.contents)

theorem alike_entries (rules : Rules) (edits : List (String × String)) :
    (afterEdits rules edits).Alike (afterEdits rules (afterEdits rules edits).entries) := by
  obtain ⟨t, ht, hcontent⟩ :=
    foldlM_restore_snapshot (afterEdits_sound rules edits) (afterEdits_tidy rules edits)
  have entered := foldl_attempt_of_restore ht
  rw [rules_afterEdits] at entered
  refine afterEdits_alike fun n => ?_
  rw [← hcontent, ← entered]
  rfl

theorem alike_swap {e e' : String × String} (hne : rules.normalize e.1 ≠ rules.normalize e'.1)
    (h : (afterEdits rules edits).Accepts e)
    (hthen : (afterEdits rules (edits ++ [e])).Accepts e')
    (h' : (afterEdits rules edits).Accepts e')
    (hthen' : (afterEdits rules (edits ++ [e'])).Accepts e) :
    (afterEdits rules (edits ++ [e, e'])).Alike (afterEdits rules (edits ++ [e', e])) := by
  have pair (x y : String × String) : edits ++ [x, y] = edits ++ [x] ++ [y] :=
    (List.append_assoc edits [x] [y]).symm
  obtain ⟨c, hc, hfirst⟩ := contentOf_afterEdits_concat h
  obtain ⟨d', hd', hsecond⟩ := contentOf_afterEdits_concat hthen
  obtain ⟨c', hc', hfirst'⟩ := contentOf_afterEdits_concat h'
  obtain ⟨d, hd, hsecond'⟩ := contentOf_afterEdits_concat hthen'
  obtain rfl : c = d := Except.ok.inj (hc.symm.trans hd)
  obtain rfl : c' = d' := Except.ok.inj (hc'.symm.trans hd')
  refine afterEdits_alike fun n => ?_
  rw [pair e e', pair e' e, hsecond, hsecond', hfirst, hfirst']
  by_cases hn : n = rules.normalize e.1
  · simp [hn, hne]
  · simp [hn]

/-- An edit that is accepted makes up for whatever its cell held before. -/
theorem alike_of_agreeOff {e : String × String}
    (h : AgreeOff (rules.normalize e.1) (afterEdits rules edits) (afterEdits rules edits'))
    (ha : (afterEdits rules edits).Accepts e) :
    (afterEdits rules (edits ++ [e])).Alike (afterEdits rules (edits' ++ [e])) := by
  have hrules := (rules_afterEdits rules edits).trans (rules_afterEdits rules edits').symm
  have ha' : (afterEdits rules edits').Accepts e := by
    refine AgreeOff.accepts (afterEdits_sound rules edits) (afterEdits_sound rules edits') hrules ?_ ha
    rwa [rules_afterEdits]
  obtain ⟨c, hc, hcontent⟩ := contentOf_afterEdits_concat ha
  obtain ⟨d, hd, hcontent'⟩ := contentOf_afterEdits_concat ha'
  obtain rfl : c = d := Except.ok.inj (hc.symm.trans hd)
  refine afterEdits_alike fun m => ?_
  rw [hcontent, hcontent']
  by_cases hm : m = rules.normalize e.1
  · rw [if_pos hm, if_pos hm]
  · rw [if_neg hm, if_neg hm]
    exact h m hm

theorem alike_overwritten {e e' : String × String} {between : List (String × String)}
    (heq : rules.normalize e.1 = rules.normalize e'.1)
    (hsame : SameOutcomes (afterEdits rules (edits ++ [e])) (afterEdits rules edits) between)
    (ha : (afterEdits rules (edits ++ e :: between)).Accepts e') :
    (afterEdits rules (edits ++ e :: (between ++ [e']))).Alike
      (afterEdits rules (edits ++ (between ++ [e']))) := by
  have first := agreeOff_attempt (afterEdits rules edits) e
  rw [rules_afterEdits, heq] at first
  have off : AgreeOff (rules.normalize e'.1) (afterEdits rules (edits ++ e :: between))
      (afterEdits rules (edits ++ between)) := by
    rw [afterEdits_append] at hsame ⊢
    rw [afterEdits_append rules edits between]
    exact first.foldl_attempt (rules_attempt _ _) hsame
  have alike := alike_of_agreeOff off ha
  rwa [List.append_assoc, List.append_assoc, List.cons_append] at alike

end histories

/-- Sheets that came to the same contents agree in their names, values and edges and are saved alike,
whatever edits led to them. So two edits of different cells may be exchanged, if both orders are
accepted; an edit that is overwritten later may be left out, if the edits between are accepted and
refused as before; and any sheet is what comes of entering its contents once. -/
theorem afterEdits_history_independent (rules : Rules) :
    (∀ edits edits', (∀ n,
        ((afterEdits rules edits).contentOf n).Same ((afterEdits rules edits').contentOf n)) →
      (afterEdits rules edits).Alike (afterEdits rules edits') ∧
        (afterEdits rules edits).snapshot = (afterEdits rules edits').snapshot) ∧
    (∀ edits e e', rules.normalize e.1 ≠ rules.normalize e'.1 →
      (afterEdits rules edits).Accepts e → (afterEdits rules (edits ++ [e])).Accepts e' →
      (afterEdits rules edits).Accepts e' → (afterEdits rules (edits ++ [e'])).Accepts e →
      (afterEdits rules (edits ++ [e, e'])).Alike (afterEdits rules (edits ++ [e', e]))) ∧
    (∀ edits e between e', rules.normalize e.1 = rules.normalize e'.1 →
      SameOutcomes (afterEdits rules (edits ++ [e])) (afterEdits rules edits) between →
      (afterEdits rules (edits ++ e :: between)).Accepts e' →
      (afterEdits rules (edits ++ e :: (between ++ [e']))).Alike
        (afterEdits rules (edits ++ (between ++ [e'])))) ∧
    ∀ edits, (afterEdits rules edits).Alike
      (afterEdits rules (afterEdits rules edits).entries) := by
  refine ⟨fun edits edits' h => ?_, fun _ _ _ => alike_swap, fun _ _ _ _ => alike_overwritten,
    alike_entries rules⟩
  have alike : (afterEdits rules edits).Alike (afterEdits rules edits') := by
    refine afterEdits_alike fun n => ?_
    obtain ⟨raw, hraw⟩ := (afterEdits_tidy rules edits).written n
    obtain ⟨raw', hraw'⟩ := (afterEdits_tidy rules edits').written n
    rw [rules_afterEdits] at hraw hraw'
    exact Content.eq_of_same hraw hraw' (h n)
  refine ⟨alike, alike.snapshot ?_⟩
  rw [rules_afterEdits, rules_afterEdits]

/-- What `A1` named before it was overwritten is not to be seen afterwards. -/
theorem afterEdits_overwritten_formula :
    (afterEdits .standard [("A1", "=B1"), ("B1", "x"), ("A1", "x")]).Alike
      (afterEdits .standard [("B1", "x"), ("A1", "x")]) := by
  have accepts {name : String} (hname : (new .standard).cellName name = .ok name)
      (edits : List (String × String)) : (afterEdits .standard edits).Accepts (name, "x") :=
    accepts_of_vars (c := .text "x") ((cellName_afterEdits _ edits name).trans hname) rfl rfl
  have outcomes : SameOutcomes (afterEdits .standard [("A1", "=B1")]) (afterEdits .standard [])
      [("B1", "x")] :=
    ⟨iff_of_true (accepts (by decide) _) (accepts (by decide) _), trivial⟩
  exact (afterEdits_history_independent .standard).2.2.1 [] ("A1", "=B1") [("B1", "x")] ("A1", "x")
    rfl outcomes (accepts (by decide) _)

/-- What `A1` named made an edit of `B1` circular. That edit is not made up for when `A1` is overwritten. -/
theorem afterEdits_overwritten_refusal : (new .standard).Accepts ("A1", "=B1") ∧
    (afterEdits .standard [("A1", "=B1"), ("B1", "=A1")]).Accepts ("A1", "x") ∧
    ¬(afterEdits .standard [("A1", "=B1"), ("B1", "=A1"), ("A1", "x")]).Alike
      (afterEdits .standard [("B1", "=A1"), ("A1", "x")]) := by
  have names_A1 : Content.classify Rules.standard.naming "=A1" =
      .ok (.formula ⟨[.var "A1"], "A1"⟩) := Content.classify_var "A1" (by decide) rfl (by decide)
  have names_B1 : Content.classify Rules.standard.naming "=B1" =
      .ok (.formula ⟨[.var "B1"], "B1"⟩) := Content.classify_var "B1" (by decide) rfl (by decide)
  have first : (new .standard).attempt ("A1", "=B1") =
      ((new .standard).commit "A1" (.formula ⟨[.var "B1"], "B1"⟩)).recalculate ["A1"] :=
    attempt_of_valid (by decide) names_B1 rfl
  have second : (new .standard).attempt ("B1", "=A1") =
      ((new .standard).commit "B1" (.formula ⟨[.var "A1"], "A1"⟩)).recalculate ["B1"] :=
    attempt_of_valid (by decide) names_A1 rfl
  have refused : ((new .standard).attempt ("A1", "=B1")).attempt ("B1", "=A1") =
      (new .standard).attempt ("A1", "=B1") := by
    rw [first, attempt_eq, set_of_valid (n := "B1") _ (by decide) names_A1]
    rfl
  have kept (s : Sheet) (hs : s.rules = .standard) :
      (s.attempt ("A1", "x")).contentOf "B1" = s.contentOf "B1" :=
    agreeOff_attempt s ("A1", "x") "B1" (by rw [hs]; decide)
  have empty : (afterEdits .standard [("A1", "=B1"), ("B1", "=A1"), ("A1", "x")]).contentOf "B1" =
      .empty := by
    simp only [afterEdits, List.foldl_cons, List.foldl_nil]
    rw [refused, kept _ (by rw [rules_attempt]; rfl), first]
    rfl
  have formula : (afterEdits .standard [("B1", "=A1"), ("A1", "x")]).contentOf "B1" =
      .formula ⟨[.var "A1"], "A1"⟩ := by
    simp only [afterEdits, List.foldl_cons, List.foldl_nil]
    rw [kept _ (by rw [rules_attempt]; rfl), second]
    rfl
  refine ⟨⟨_, _, set_of_valid (n := "A1") (new .standard) (by decide) names_B1⟩, ?_, fun h => ?_⟩
  · refine accepts_of_vars (n := "A1") (c := .text "x") ?_ rfl rfl
    rw [cellName_afterEdits]
    decide
  · have same := h.contentOf "B1"
    rw [empty, formula] at same
    cases same

section mixed

/-- Two formulas, a number and a text, under names in small letters. -/
def mixed : Sheet := afterEdits ⟨"1", .upper, none, none⟩
  [("c1", "=A1"), ("d1", "=B1"), ("a1", " 2.0"), ("b1", "it's two words")]

theorem contentOf_mixed : ∃ x, Content.classify mixed.rules.naming " 2.0" = .ok (.number x) ∧
    Number.toText x = "2" ∧ ∀ m, mixed.contentOf m =
      if m = "B1" then .text "it's two words" else if m = "A1" then .number x
      else if m = "D1" then .formula ⟨[.var "B1"], "B1"⟩
      else if m = "C1" then .formula ⟨[.var "A1"], "A1"⟩ else .empty := by
  let rules : Rules := ⟨"1", .upper, none, none⟩
  obtain ⟨x, hx, hinput⟩ : ∃ x, Number.readFinite (Text.trimList " 2.0".toList) = some x ∧
      Number.toText x = "2" := Option.map_eq_some_iff.1 (by decide +kernel)
  have names_A1 : Content.classify rules.naming "=A1" = .ok (.formula ⟨[.var "A1"], "A1"⟩) :=
    Content.classify_var "A1" (by decide) (by decide +kernel) (by decide +kernel)
  have names_B1 : Content.classify rules.naming "=B1" = .ok (.formula ⟨[.var "B1"], "B1"⟩) :=
    Content.classify_var "B1" (by decide) (by decide +kernel) (by decide +kernel)
  have number : Content.classify rules.naming " 2.0" = .ok (.number x) := by
    unfold Content.classify
    rw [hx]
  have text : Content.classify rules.naming "it's two words" = .ok (.text "it's two words") := rfl
  have first : afterEdits rules [("c1", "=A1"), ("d1", "=B1")] =
      ((((new rules).commit "C1" (.formula ⟨[.var "A1"], "A1"⟩)).recalculate ["C1"]).commit "D1"
        (.formula ⟨[.var "B1"], "B1"⟩)).recalculate ["D1"] := by
    rw [afterEdits, List.foldl_cons, attempt_of_valid (n := "C1") (by decide +kernel) names_A1 rfl]
    exact attempt_of_valid (by decide +kernel) names_B1 rfl
  let formulas : List (String × String) := [("c1", "=A1"), ("d1", "=B1")]
  have name_a1 : (afterEdits rules formulas).cellName "a1" = .ok "A1" :=
    (cellName_afterEdits rules formulas "a1").trans (by decide +kernel)
  have name_b1 : (afterEdits rules (formulas ++ [("a1", " 2.0")])).cellName "b1" = .ok "B1" :=
    (cellName_afterEdits rules _ "b1").trans (by decide +kernel)
  refine ⟨x, by rw [mixed, rules_afterEdits]; exact number, hinput, fun m => ?_⟩
  have third := contentOf_afterEdits_of_vars name_a1 number rfl m
  have fourth := contentOf_afterEdits_of_vars name_b1 text rfl m
  rw [first, contentOf_recalculate, contentOf_commit, contentOf_recalculate, contentOf_commit] at third
  exact fourth.trans (congrArg (if m = "B1" then .text "it's two words" else ·) third)

end mixed

end Worksheet.Sheet
