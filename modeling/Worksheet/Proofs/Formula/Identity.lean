import Worksheet.Proofs.Formula.Equality
import Worksheet.Proofs.Rules.Naming

set_option autoImplicit false

/-!
# A formula and its text

The text of a formula, read just as it stands, gives the formula back as long as the naming left the
texts of numbers alone. Equal formulas have the same text. Formulas with the same text are equal as long
as the naming keeps a number apart from whatever else an operand can begin with.
-/
namespace Worksheet

/-- No number is written like another token with which an operand can begin, whatever may follow the
two. -/
def Naming.KeepsApart (naming : Naming) (ts : List Formula.Token) : Prop :=
  ∀ x u, .num x ∈ ts → u ∈ ts → u.opensTerm = true →
    ∀ r r', Formula.Stops r → (u.closesTerm = true → Formula.Stops r') →
      (Formula.canonicalPiece naming (.num x)).toList ++ r =
        (Formula.canonicalPiece naming u).toList ++ r' → u = .num x

/-- The naming puts one text before all names and one after them. -/
def Naming.Surrounds (naming : Naming) : Prop :=
  ∃ before after : String, before.toList.head? ≠ some '(' ∧
    ∀ s, naming.normalize s = before ++ s ++ after

namespace Formula
open Worksheet.Text

theorem parse_of_toOption {naming : Naming} {s text : String} {tokens : List Token}
    (h : (parse naming s).toOption.map (fun f => (f.tokens, f.text)) = some (tokens, text)) :
    parse naming s = .ok ⟨tokens, text⟩ := by
  cases hparse : parse naming s with
  | error e =>
    rw [hparse] at h
    cases h
  | ok f =>
    rw [hparse] at h
    obtain ⟨htokens, htext⟩ := Prod.mk.inj (Option.some.inj h)
    cases f
    simp only at htokens htext
    rw [htokens, htext]

/-- Letter case leaves the texts of numbers alone. Under any naming that does, the text of a formula is
read as that formula by itself, with the same tokens, variables and text. -/
theorem parse_verbatim_text :
    (∀ (letterCase : NameCase) (accepts : String → Bool),
      Naming.KeepsNumbers ⟨letterCase.apply, accepts⟩) ∧
    ∀ {naming : Naming} {s : String} {f : Formula}, naming.KeepsNumbers → parse naming s = .ok f →
      ∃ g, parse .verbatim f.text = .ok g ∧ (g == f) = true ∧ g.tokens = f.tokens ∧
        g.vars = f.vars ∧ g.text = f.text := by
  refine ⟨NameCase.keepsNumbers, fun {naming s f} hnumber h => ⟨f, ?_, ?_, rfl, rfl, rfl⟩⟩
  · exact parse_text_of_normal hnumber (fun _ _ _ => rfl) h fun v _ => ⟨rfl, rfl⟩
  · exact decide_eq_true rfl

def capitals : Naming := ⟨NameCase.upper.apply, fun _ => true⟩

def quotient : Formula :=
  ⟨[.lparen, .var "A1", .op .add, .num 2.5, .rparen, .op .div, .var "B_3", .op .sub, .var "A1",
    .op .mul, .num 0.7], "(A1+2.5)/B_3-A1*0.7"⟩

theorem parse_verbatim_text_quotient :
    capitals.KeepsNumbers ∧ parse capitals "(a1 + 2.50) / b_3 - A1 * 7e-1" = .ok quotient ∧
      ∃ g, parse .verbatim "(A1+2.5)/B_3-A1*0.7" = .ok g ∧ (g == quotient) = true ∧
        g.tokens = quotient.tokens ∧ g.vars = quotient.vars ∧ g.text = quotient.text := by
  have hnumber : capitals.KeepsNumbers := parse_verbatim_text.1 .upper _
  have hparse : parse capitals "(a1 + 2.50) / b_3 - A1 * 7e-1" = .ok quotient :=
    parse_of_toOption (by decide +kernel)
  exact ⟨hnumber, hparse, parse_verbatim_text.2 hnumber hparse⟩

section apart

variable {naming : Naming} {all : List Token}

theorem takeWhile_var {v : String} (hv : isVariable v = true) {r : List Char} (hr : Stops r) :
    (v.toList ++ r).takeWhile isWordChar = v.toList :=
  takeWhile_run (isWordChar_of_isVariable hv) (hr.head_false (forall_mem_of_all (by decide)))

theorem eq_of_opensTerm (hall : naming.KeepsApart all)
    (hvar : ∀ v, .var v ∈ all → isVariable v = true) {t u : Token} (ht : t ∈ all) (hu : u ∈ all)
    (htopens : t.opensTerm = true) (huopens : u.opensTerm = true) {r r' : List Char}
    (hr : t.closesTerm = true → Stops r) (hr' : u.closesTerm = true → Stops r')
    (h : (canonicalPiece naming t).toList ++ r = (canonicalPiece naming u).toList ++ r') : t = u := by
  have not_paren {v : String} (hv : .var v ∈ all) {r r' : List Char} :
      v.toList ++ r ≠ "(".toList ++ r' := by
    intro heq
    obtain ⟨c, cs, hname, hc, -⟩ := isVariable_iff.1 (hvar v hv)
    rw [hname] at heq
    obtain rfl : c = '(' := (List.cons.inj heq).1
    cases hc
  cases t with
  | num x => exact (hall x u ht hu huopens r r' (hr rfl) hr' h).symm
  | lparen =>
    cases u with
    | num y => exact hall y .lparen hu ht rfl r' r (hr' rfl) hr h.symm
    | lparen => rfl
    | var w => exact absurd h.symm (not_paren hu)
    | rparen | op _ => cases huopens
  | var v =>
    cases u with
    | num y => exact hall y (.var v) hu ht rfl r' r (hr' rfl) hr h.symm
    | lparen => exact absurd h (not_paren ht)
    | var w =>
      have hword := congrArg (List.takeWhile isWordChar) h
      rw [show canonicalPiece naming (.var v) = v from rfl,
        show canonicalPiece naming (.var w) = w from rfl, takeWhile_var (hvar v ht) (hr rfl),
        takeWhile_var (hvar w hu) (hr' rfl)] at hword
      rw [String.toList_inj.1 hword]
    | rparen | op _ => cases huopens
  | rparen | op _ => cases htopens

theorem eq_of_continuesTerm {t u : Token} (ht : t.continuesTerm = true) (hu : u.continuesTerm = true)
    {r r' : List Char} (h : t.text.toList ++ r = u.text.toList ++ r') : t = u := by
  obtain ⟨c, hc, hcmark⟩ := Token.exists_mark ht
  obtain ⟨d, hd, hdmark⟩ := Token.exists_mark hu
  rw [hc, hd] at h
  obtain rfl : c = d := (List.cons.inj h).1
  rcases hcmark with ⟨rfl, rfl⟩ | ⟨o, rfl, rfl⟩
  · rcases hdmark with ⟨-, rfl⟩ | ⟨o, ho, -⟩
    · rfl
    · exact absurd ho.symm o.symbol_ne_paren.2
  · rcases hdmark with ⟨ho, -⟩ | ⟨o', ho, rfl⟩
    · exact absurd ho o.symbol_ne_paren.2
    · exact congrArg Token.op (Op.symbol_injective ho)

theorem canonicalPiece_of_continuesTerm {t : Token} (h : t.continuesTerm = true) :
    canonicalPiece naming t = t.text := by
  cases t with
  | rparen | op _ => rfl
  | lparen | var _ | num _ => cases h

theorem canonicalPiece_append_ne_nil {t : Token} (h : t.continuesTerm = true) (r : List Char) :
    (canonicalPiece naming t).toList ++ r ≠ [] := by
  obtain ⟨c, hc, -⟩ := Token.exists_mark h
  rw [canonicalPiece_of_continuesTerm h, hc]
  exact List.cons_ne_nil _ _

/-- Checked tokens with the same text are the same from wherever an operand begins, and from wherever
one has ended. -/
theorem eq_of_pieces (hall : naming.KeepsApart all) (hvar : ∀ v, .var v ∈ all → isVariable v = true)
    {ts us : List Token} (hts : Tree.Remainder ts) (hus : Tree.Remainder us) (htall : ts ⊆ all)
    (huall : us ⊆ all) (h : ts.flatMap (fun t => (canonicalPiece naming t).toList) =
      us.flatMap fun t => (canonicalPiece naming t).toList) :
    ((∃ t, ts.head? = some t ∧ t.opensTerm = true) →
      (∃ u, us.head? = some u ∧ u.opensTerm = true) → ts = us) ∧
    ((∀ t, ts.head? = some t → t.continuesTerm = true) →
      (∀ u, us.head? = some u → u.continuesTerm = true) → ts = us) := by
  induction ts generalizing us with
  | nil =>
    refine ⟨fun ⟨_, ht, _⟩ => (nomatch ht), fun _ hcont => ?_⟩
    cases us with
    | nil => rfl
    | cons u us =>
      rw [List.flatMap_cons] at h
      exact absurd h.symm (canonicalPiece_append_ne_nil (hcont u rfl) _)
  | cons t ts ih =>
    cases us with
    | nil =>
      refine ⟨fun _ ⟨_, hu, _⟩ => (nomatch hu), fun hcont _ => ?_⟩
      rw [List.flatMap_cons] at h
      exact absurd h (canonicalPiece_append_ne_nil (hcont t rfl) _)
    | cons u us =>
      obtain ⟨htail, hclose, hopen⟩ := hts.tail
      obtain ⟨hutail, huclose, huopen⟩ := hus.tail
      obtain ⟨ht, htsall⟩ := List.cons_subset.1 htall
      obtain ⟨hu, husall⟩ := List.cons_subset.1 huall
      rw [List.flatMap_cons, List.flatMap_cons] at h
      have resume (heq : t = u) : t :: ts = u :: us := by
        subst heq
        have hrest := ih htail hutail htsall husall (List.append_cancel_left h)
        cases hcloses : t.closesTerm with
        | true => rw [hrest.2 (hclose hcloses) (huclose hcloses)]
        | false => rw [hrest.1 (hopen hcloses) (huopen hcloses)]
      constructor
      · rintro ⟨t', ht', htopens⟩ ⟨u', hu', huopens⟩
        obtain rfl : t = t' := Option.some.inj ht'
        obtain rfl : u = u' := Option.some.inj hu'
        refine resume (eq_of_opensTerm hall hvar ht hu htopens huopens (fun hcloses => ?_)
          (fun hcloses => ?_) h)
        · exact stops_flatMap (fun _ => canonicalPiece_of_continuesTerm) (hclose hcloses)
        · exact stops_flatMap (fun _ => canonicalPiece_of_continuesTerm) (huclose hcloses)
      · intro htcont hucont
        rw [canonicalPiece_of_continuesTerm (htcont t rfl),
          canonicalPiece_of_continuesTerm (hucont u rfl)] at h
        exact resume (eq_of_continuesTerm (htcont t rfl) (hucont u rfl) h)

theorem toList_text_of_parse {s : String} {f : Formula} (h : parse naming s = .ok f) :
    f.text.toList = f.tokens.flatMap fun t => (canonicalPiece naming t).toList := by
  obtain ⟨_, -, -, -, htext⟩ := parse_eq_ok h
  rw [htext, String.toList_join, List.flatMap_map]

theorem tokens_eq_of_text_eq {s s' : String} {f g : Formula} (hf : parse naming s = .ok f)
    (hg : parse naming s' = .ok g) (hapart : naming.KeepsApart (f.tokens ++ g.tokens))
    (h : f.text = g.text) : f.tokens = g.tokens := by
  have hvar : ∀ v, .var v ∈ f.tokens ++ g.tokens → isVariable v = true := by
    intro v hv
    rcases List.mem_append.1 hv with hv | hv
    · exact (accepts_of_parse hf hv).1
    · exact (accepts_of_parse hg hv).1
  have hpieces := congrArg String.toList h
  rw [toList_text_of_parse hf, toList_text_of_parse hg] at hpieces
  have hfcheck := check_of_parse hf
  have hgcheck := check_of_parse hg
  exact (eq_of_pieces hapart hvar (Tree.remainder_of_check hfcheck) (Tree.remainder_of_check hgcheck)
    (List.subset_append_left _ _) (List.subset_append_right _ _) hpieces).1
    (Tree.checkEnds_eq_ok (Tree.check_eq_ok hfcheck).1).1
    (Tree.checkEnds_eq_ok (Tree.check_eq_ok hgcheck).1).1

end apart

section namings

variable {naming : Naming} {ts : List Token}

def isNumberChar (c : Char) : Bool := c.isDigit || c == '.'

theorem num_eq_of_text {x y : Float} (hx : (Token.num x).IsWritten) (hy : (Token.num y).IsWritten)
    {after r r' : List Char} (hr : Stops r) (hr' : Stops r')
    (h : Number.text x ++ (after ++ r) = Number.text y ++ (after ++ r')) : x = y := by
  have run {z : Float} (hz : (Token.num z).IsWritten) {r : List Char} (hr : Stops r) :
      (Number.text z ++ (after ++ r)).takeWhile isNumberChar =
        Number.text z ++ after.takeWhile isNumberChar := by
    obtain ⟨p, hp⟩ := Number.exists_plain_text hz.1 hz.2
    have hchars : ∀ c ∈ Number.text z, isNumberChar c = true := by
      intro c hc
      rw [← hp] at hc
      unfold isNumberChar
      rw [Bool.or_eq_true, beq_iff_eq]
      exact Number.Plain.mem_chars hc
    rw [List.takeWhile_append_of_pos hchars,
      takeWhile_append_stop after (hr.head_false (forall_mem_of_all (by decide)))]
  have hrun := congrArg (List.takeWhile isNumberChar) h
  rw [run hx hr, run hy hr'] at hrun
  exact Number.toText_inj hx.1 hy.1 (congrArg String.ofList (List.append_cancel_right hrun))

/-- Numbers that stand between fixed texts are kept apart, if no variable has a digit where they have
their first one. -/
theorem keepsApart_of_framed (before after : List Char) (hbefore : before.head? ≠ some '(')
    (hwritten : ∀ x, .num x ∈ ts → (Token.num x).IsWritten)
    (hnum : ∀ x, .num x ∈ ts →
      (naming.normalize (Number.toText x)).toList = before ++ (Number.text x ++ after))
    (hvar : ∀ v, .var v ∈ ts → ∃ c cs, v.toList = before ++ c :: cs ∧ c.isDigit = false) :
    naming.KeepsApart ts := by
  intro x u hx hu huopens r r' hr hr' h
  obtain ⟨p, hp⟩ := Number.exists_plain_text (hwritten x hx).1 (hwritten x hx).2
  obtain ⟨d, ds, hfirst, hd⟩ := p.exists_cons
  have piece {y : Float} (hy : .num y ∈ ts) : (canonicalPiece naming (.num y)).toList =
      before ++ (Number.text y ++ after) := hnum y hy
  rw [piece hx, List.append_assoc, List.append_assoc] at h
  cases u with
  | num y =>
    rw [piece hu, List.append_assoc, List.append_assoc] at h
    rw [num_eq_of_text (hwritten x hx) (hwritten y hu) hr (hr' rfl) (List.append_cancel_left h)]
  | var v =>
    obtain ⟨c, cs, hv, hc⟩ := hvar v hu
    rw [show canonicalPiece naming (.var v) = v from rfl, hv, List.append_assoc, ← hp, hfirst] at h
    obtain rfl : d = c := (List.cons.inj (List.append_cancel_left h)).1
    rw [hd] at hc
    cases hc
  | lparen =>
    have hparen : canonicalPiece naming .lparen = "(" := rfl
    rw [hparen, show "(".toList = ['('] from rfl, ← hp, hfirst] at h
    cases before with
    | nil =>
      obtain rfl : d = '(' := (List.cons.inj h).1
      cases hd
    | cons c cs => exact absurd (congrArg some (List.cons.inj h).1) hbefore
  | rparen | op _ => cases huopens

theorem keepsApart_of_keepsNumbers (h : naming.KeepsNumbers) (hwritten : ∀ t ∈ ts, t.IsWritten) :
    naming.KeepsApart ts := by
  have hnum : ∀ x, .num x ∈ ts → (Token.num x).IsWritten := fun x hx => hwritten _ hx
  refine keepsApart_of_framed [] [] nofun hnum (fun x hx => ?_) fun v hv => ?_
  · rw [h x (hnum x hx).1 (hnum x hx).2, List.append_nil]
    exact String.toList_ofList
  · obtain ⟨c, cs, hname, hc, -⟩ := isVariable_iff.1 (hwritten _ hv)
    exact ⟨c, cs, hname, not_isDigit_of_isWordStart hc⟩

theorem keepsApart_of_surrounds (h : naming.Surrounds) (hwritten : ∀ t ∈ ts, t.IsWritten)
    (hvar : ∀ v, .var v ∈ ts → ∃ name, isVariable name = true ∧ v = naming.normalize name) :
    naming.KeepsApart ts := by
  obtain ⟨before, after, hbefore, hnormalize⟩ := h
  refine keepsApart_of_framed before.toList after.toList hbefore (fun x hx => hwritten _ hx)
    (fun x _ => ?_) fun v hv => ?_
  · rw [hnormalize, String.toList_append, String.toList_append, List.append_assoc]
    exact congrArg _ (congrArg (· ++ after.toList) String.toList_ofList)
  · obtain ⟨name, hname, rfl⟩ := hvar v hv
    obtain ⟨c, cs, htext, hc, -⟩ := isVariable_iff.1 hname
    refine ⟨c, cs ++ after.toList, ?_, not_isDigit_of_isWordStart hc⟩
    rw [hnormalize, String.toList_append, String.toList_append, htext, List.append_assoc]
    rfl

end namings

/-- Equal formulas agree in all that can be seen of them. Formulas with the same text are equal if the
naming keeps their numbers apart. A naming does so if it leaves the texts of numbers alone, and also if it
puts one text around all names and numbers alike. -/
theorem beq_iff_text {naming : Naming} {s s' : String} {f g : Formula} (hf : parse naming s = .ok f)
    (hg : parse naming s' = .ok g) :
    ((f == g) = true → f.text = g.text ∧ f.keys = g.keys ∧ hash f = hash g ∧ f.vars = g.vars ∧
      ∀ lookup, f.value lookup = g.value lookup) ∧
    (naming.KeepsApart (f.tokens ++ g.tokens) → ((f == g) = true ↔ f.text = g.text)) ∧
    (naming.KeepsNumbers ∨ naming.Surrounds → naming.KeepsApart (f.tokens ++ g.tokens)) := by
  refine ⟨fun heq => ?_, fun hapart => ⟨fun heq => ?_, fun htext => ?_⟩, fun hnaming => ?_⟩
  · obtain rfl := eq_of_beq hf hg heq
    exact ⟨rfl, rfl, rfl, rfl, fun _ => rfl⟩
  · rw [eq_of_beq hf hg heq]
  · exact decide_eq_true (congrArg (List.map Token.key) (tokens_eq_of_text_eq hf hg hapart htext))
  · have hwritten : ∀ t ∈ f.tokens ++ g.tokens, t.IsWritten :=
      List.forall_mem_append.2 ⟨isWritten_of_parse hf, isWritten_of_parse hg⟩
    rcases hnaming with hnumber | hsurrounds
    · exact keepsApart_of_keepsNumbers hnumber hwritten
    · refine keepsApart_of_surrounds hsurrounds hwritten fun v hv => ?_
      rcases List.mem_append.1 hv with hv | hv
      · exact written_of_parse hf hv
      · exact written_of_parse hg hv

/-- Names and numbers with a label in front. -/
def labelled : Naming := ⟨fun s => "n_" ++ s, fun _ => true⟩

theorem labelled_surrounds : labelled.Surrounds :=
  ⟨"n_", "", by decide, fun s => (String.append_empty).symm⟩

def labelledSum : Formula := ⟨[.num 1, .op .add, .var "n_x"], "n_1+n_x"⟩

def labelledProduct : Formula := ⟨[.num 1, .op .mul, .var "n_x"], "n_1*n_x"⟩

theorem beq_iff_text_labelled :
    parse labelled " 1.0 + x" = .ok labelledSum ∧ parse labelled "1*x" = .ok labelledProduct ∧
      labelled.KeepsApart (labelledSum.tokens ++ labelledProduct.tokens) ∧
      ((labelledSum == labelledProduct) = true ↔ labelledSum.text = labelledProduct.text) := by
  have hsum : parse labelled " 1.0 + x" = .ok labelledSum := parse_of_toOption (by decide +kernel)
  have hproduct : parse labelled "1*x" = .ok labelledProduct :=
    parse_of_toOption (by decide +kernel)
  obtain ⟨-, hiff, hnamings⟩ := beq_iff_text hsum hproduct
  have hapart := hnamings (.inr labelled_surrounds)
  exact ⟨hsum, hproduct, hapart, hiff hapart⟩

/-- Every name and every number is written as `x`. -/
def uniform : Naming := ⟨fun _ => "x", fun _ => true⟩

/-- Where two numbers are written alike, different formulas have one text. -/
theorem exists_text_eq_of_uniform :
    ∃ f g, parse uniform "1" = .ok f ∧ parse uniform "2" = .ok g ∧ f.text = g.text ∧
      (f == g) = false :=
  ⟨⟨[.num 1], "x"⟩, ⟨[.num 2], "x"⟩, parse_of_toOption (by decide +kernel),
    parse_of_toOption (by decide +kernel), rfl, by decide +kernel⟩

end Formula
end Worksheet
