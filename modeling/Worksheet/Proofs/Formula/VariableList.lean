import Worksheet.Proofs.Formula.Identity
import Worksheet.Proofs.Formula.Variables

set_option autoImplicit false

/-!
# The list of variables and the lookups of an evaluation

A formula can be put together in one pass over its written tokens, which lists each variable where it
meets it first. That list is what an evaluation reads: it asks for no variable outside of it, and it
comes to no number unless each variable in it has a value.
-/
namespace Worksheet.Formula

def firstUse (ts : List Token) (v : String) : Nat := ts.findIdx fun t => t.variable? == some v

theorem variable?_eq_some_iff {t : Token} {v : String} : t.variable? = some v ↔ t = .var v := by
  cases t with
  | var w =>
    change some w = some v ↔ _
    rw [Option.some.injEq, Token.var.injEq]
  | lparen | rparen | op _ | num _ => exact iff_of_false nofun nofun

section firstUse

variable {ts : List Token} {v : String}

theorem firstUse_lt (h : .var v ∈ ts) : firstUse ts v < ts.length :=
  List.findIdx_lt_length_of_exists ⟨.var v, h, beq_self_eq_true (some v)⟩

theorem firstUse_append_of_mem (h : .var v ∈ ts) (us : List Token) :
    firstUse (ts ++ us) v = firstUse ts v := by
  unfold firstUse
  rw [List.findIdx_append]
  exact if_pos (firstUse_lt h)

theorem firstUse_concat_of_notMem (h : .var v ∉ ts) : firstUse (ts ++ [.var v]) v = ts.length := by
  have hend : ts.findIdx (fun t => t.variable? == some v) = ts.length := by
    rw [List.findIdx_eq_length]
    intro t ht
    rw [beq_eq_false_iff_ne]
    intro hv
    exact h (variable?_eq_some_iff.1 hv ▸ ht)
  unfold firstUse
  rw [List.findIdx_append, hend, if_neg (Nat.lt_irrefl ts.length), List.findIdx_singleton,
    if_pos (beq_iff_eq.2 (variable?_eq_some_iff.2 rfl)), Nat.zero_add]

end firstUse

/-- The variables among the tokens, once each, in the order in which they first appear. -/
structure Lists (ts : List Token) (vs : List String) : Prop where
  nodup : vs.Nodup
  mem_iff : ∀ v, v ∈ vs ↔ .var v ∈ ts
  ordered : vs.Pairwise fun v w => firstUse ts v < firstUse ts w

theorem Lists.nil : Lists [] [] := ⟨.nil, by simp, .nil⟩

section step

variable {ts : List Token} {vs : List String} (h : Lists ts vs)
include h

theorem Lists.ordered_append (us : List Token) :
    vs.Pairwise fun v w => firstUse (ts ++ us) v < firstUse (ts ++ us) w := by
  apply h.ordered.imp_of_mem
  intro v w hv hw hlt
  rw [firstUse_append_of_mem ((h.mem_iff v).1 hv), firstUse_append_of_mem ((h.mem_iff w).1 hw)]
  exact hlt

theorem Lists.concat_known {t : Token} (ht : ∀ v, t = .var v → v ∈ vs) : Lists (ts ++ [t]) vs where
  nodup := h.nodup
  mem_iff v := by
    rw [List.mem_append, List.mem_singleton, ← h.mem_iff]
    exact ⟨.inl, fun hv => hv.elim id fun heq => ht v heq.symm⟩
  ordered := h.ordered_append [t]

theorem Lists.concat_new {v : String} (hv : v ∉ vs) : Lists (ts ++ [.var v]) (vs ++ [v]) where
  nodup := by simpa [List.nodup_append, h.nodup] using fun w hw (heq : w = v) => hv (heq ▸ hw)
  mem_iff w := by simp [h.mem_iff]
  ordered := by
    refine List.pairwise_append.2 ⟨h.ordered_append _, List.pairwise_singleton _ _, ?_⟩
    intro w hw u hu
    obtain rfl := List.mem_singleton.1 hu
    have hold : .var w ∈ ts := (h.mem_iff w).1 hw
    rw [firstUse_append_of_mem hold, firstUse_concat_of_notMem fun hu => hv ((h.mem_iff u).2 hu)]
    exact firstUse_lt hold

end step

/-- What a pass over the written tokens has put together so far. -/
structure Draft where
  tokens : List Token
  text : String
  vars : List String

namespace Draft

def empty : Draft := ⟨[], "", []⟩

def note (vars : List String) : Token → List String
  | .var v => if v ∈ vars then vars else vars ++ [v]
  | _ => vars

/-- A renamed token is written down in all three places. -/
def push (naming : Naming) (d : Draft) (t : Token) : Draft :=
  ⟨d.tokens ++ [t], d.text ++ canonicalPiece naming t, note d.vars t⟩

def add (naming : Naming) (d : Draft) (t : Token) : Except Fault Draft :=
  (rename naming t).map (d.push naming)

/-- The draft of a formula, by one pass over the tokens of its text. -/
def read (naming : Naming) (s : String) : Except Fault Draft := do
  let written ← tokenize s
  check written
  written.foldlM (add naming) empty

theorem lists_push {naming : Naming} {d : Draft} (h : Lists d.tokens d.vars) (t : Token) :
    Lists (d.push naming t).tokens (d.push naming t).vars := by
  cases t with
  | var v =>
    change Lists (d.tokens ++ [.var v]) (if v ∈ d.vars then d.vars else d.vars ++ [v])
    split
    · rename_i hv
      exact h.concat_known fun w hw => Token.var.inj hw ▸ hv
    · rename_i hv
      exact h.concat_new hv
  | lparen | rparen | op _ | num _ => exact h.concat_known nofun

theorem lists_of_foldlM {naming : Naming} {written : List Token} {d e : Draft}
    (h : Lists d.tokens d.vars) (he : written.foldlM (add naming) d = .ok e) :
    Lists e.tokens e.vars := by
  -- the invariant goes from token to token
  induction written generalizing d with
  | nil =>
    obtain rfl : d = e := Except.ok.inj he
    exact h
  | cons t written ih =>
    rw [List.foldlM_cons] at he
    unfold add at he
    cases ht : rename naming t with
    | error fault => simp [ht, bind, Except.bind, Except.map] at he
    | ok u =>
      rw [ht] at he
      exact ih (lists_push h u) he

theorem lists_of_read {naming : Naming} {s : String} {d : Draft} (h : read naming s = .ok d) :
    Lists d.tokens d.vars := by
  unfold read at h
  cases ht : tokenize s with
  | error fault => simp [ht, bind, Except.bind] at h
  | ok written =>
    cases hc : check written with
    | error fault => simp [ht, hc, bind, Except.bind] at h
    | ok _ =>
      rw [ht] at h
      change (check written >>= fun _ => written.foldlM (add naming) empty) = .ok d at h
      rw [hc] at h
      exact lists_of_foldlM .nil h

/-- What a pass has put together once it has renamed these tokens. -/
def of (naming : Naming) (ts : List Token) : Draft :=
  ⟨ts, String.join (ts.map (canonicalPiece naming)), (ts.filterMap Token.variable?).eraseDups⟩

theorem eraseDups_concat (vs : List String) (v : String) :
    (vs ++ [v]).eraseDups = if v ∈ vs.eraseDups then vs.eraseDups else vs.eraseDups ++ [v] := by
  rw [List.eraseDups_append]
  by_cases hv : v ∈ vs
  · rw [if_pos (List.mem_eraseDups.2 hv)]
    have hnone : [v].removeAll vs = [] := by simp [List.removeAll, hv]
    rw [hnone, List.eraseDups_nil, List.append_nil]
  · rw [if_neg fun h => hv (List.mem_eraseDups.1 h)]
    have hsome : [v].removeAll vs = [v] := by simp [List.removeAll, hv]
    rw [hsome]
    rfl

theorem note_eraseDups (ts : List Token) (t : Token) :
    note (ts.filterMap Token.variable?).eraseDups t =
      ((ts ++ [t]).filterMap Token.variable?).eraseDups := by
  rw [List.filterMap_append]
  cases t with
  | var v => exact (eraseDups_concat _ v).symm
  | lparen | rparen | op _ | num _ =>
    change _ = (_ ++ []).eraseDups
    rw [List.append_nil]
    rfl

theorem push_of (naming : Naming) (ts : List Token) (t : Token) :
    (of naming ts).push naming t = of naming (ts ++ [t]) := by
  unfold push of
  simp only [List.map_append, List.map_cons, List.map_nil]
  rw [note_eraseDups, String.join_append]
  simp

theorem foldlM_add (naming : Naming) (ts written : List Token) :
    written.foldlM (add naming) (of naming ts) =
      (written.mapM (rename naming)).map fun us => of naming (ts ++ us) := by
  induction written generalizing ts with
  | nil => simp [Except.map, pure, Except.pure]
  | cons t written ih =>
    rw [List.foldlM_cons, List.mapM_cons]
    unfold add
    cases ht : rename naming t with
    | error fault => rfl
    | ok u =>
      change written.foldlM (add naming) ((of naming ts).push naming u) = _
      rw [push_of, ih]
      cases written.mapM (rename naming) with
      | error fault => rfl
      | ok us => simp [Except.map, bind, Except.bind, pure, Except.pure]

/-- One pass gives the tokens of the formula, its text and its variables. -/
theorem read_eq_parse (naming : Naming) (s : String) :
    read naming s = (parse naming s).map fun f => ⟨f.tokens, f.text, f.vars⟩ := by
  unfold read parse
  cases tokenize s with
  | error fault => rfl
  | ok written =>
    change (check written >>= fun _ => written.foldlM (add naming) (of naming [])) = _
    cases hc : check written with
    | error fault => simp [hc, bind, Except.bind, Except.map]
    | ok _ =>
      change written.foldlM (add naming) (of naming []) = _
      rw [foldlM_add]
      simp only [hc, bind, Except.bind]
      cases written.mapM (rename naming) with
      | error fault => rfl
      | ok us => rfl

end Draft

theorem exists_error_of_undefined (f : Formula) {lookup : String → Option Float} {v : String}
    (hv : v ∈ f.vars) (hnone : lookup v = none) : ∃ e, f.value lookup = .error e := by
  have haccounts : Accounts lookup f.tokens (f.value lookup) := evaluate_accounts lookup f.tokens
  generalize f.value lookup = x at haccounts
  cases haccounts with
  | value h =>
    have hsome := h v ((mem_vars f v).1 hv)
    rw [hnone] at hsome
    cases hsome
  | undefined _ _ => exact ⟨_, rfl⟩
  | division => exact ⟨_, rfl⟩

theorem mem_vars_of_undefinedVariable (f : Formula) {lookup : String → Option Float} {v : String}
    (h : f.value lookup = .error (.undefinedVariable v)) : v ∈ f.vars ∧ lookup v = none := by
  have haccounts : Accounts lookup f.tokens (f.value lookup) := evaluate_accounts lookup f.tokens
  rw [h] at haccounts
  cases haccounts with
  | undefined hv hnone => exact ⟨(mem_vars f v).2 hv, hnone⟩

/-- The variables listed while a formula is put together are those that its evaluation reads: no other
one matters for the result, and none of them may be missing. -/
theorem vars_are_read (naming : Naming) (text : String) {f : Formula}
    (h : parse naming text = .ok f) :
    Draft.read naming text = .ok ⟨f.tokens, f.text, f.vars⟩ ∧
      Lists f.tokens f.vars ∧
      (∀ l l' : String → Option Float, (∀ v ∈ f.vars, l v = l' v) → f.value l = f.value l') ∧
      (∀ (l : String → Option Float) (v), v ∈ f.vars → l v = none → ∃ e, f.value l = .error e) ∧
      ∀ (l : String → Option Float) (v),
        f.value l = .error (.undefinedVariable v) → v ∈ f.vars ∧ l v = none := by
  have hread : Draft.read naming text = .ok ⟨f.tokens, f.text, f.vars⟩ := by
    rw [Draft.read_eq_parse, h]
    rfl
  have hlists : Lists f.tokens f.vars := Draft.lists_of_read hread
  refine ⟨hread, hlists, ?_, ?_, ?_⟩
  · exact fun l l' hagree => value_congr f hagree
  · exact fun l v hv hnone => exists_error_of_undefined f hv hnone
  · exact fun l v hv => mem_vars_of_undefinedVariable f hv

theorem vars_are_read_quotient :
    parse capitals "(a1 + 2.50) / b_3 - A1 * 7e-1" = .ok quotient ∧ quotient.vars = ["A1", "B_3"] ∧
      Draft.read capitals "(a1 + 2.50) / b_3 - A1 * 7e-1" =
        .ok ⟨quotient.tokens, "(A1+2.5)/B_3-A1*0.7", ["A1", "B_3"]⟩ ∧
      ∃ e, quotient.value (fun v => if v = "A1" then some 2 else none) = .error e := by
  have hparse : parse capitals "(a1 + 2.50) / b_3 - A1 * 7e-1" = .ok quotient :=
    parse_of_toOption (by decide +kernel)
  have hvars : quotient.vars = ["A1", "B_3"] := by decide +kernel
  obtain ⟨hread, -, -, hundefined, -⟩ := vars_are_read capitals _ hparse
  rw [hvars] at hread hundefined
  exact ⟨hparse, hvars, hread, hundefined _ "B_3" (by decide) (by decide)⟩

end Worksheet.Formula
