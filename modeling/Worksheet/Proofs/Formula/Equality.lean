import Worksheet.Proofs.Formula.Canonical

set_option autoImplicit false

/-!
# Equal formulas

Formulas are compared by the keys of their tokens. Among formulas read under the same naming, those that
compare as equal are the same, text and all.
-/
namespace Worksheet

theorem Number.toText_inj {x y : Float} (hx : isFinite x = true) (hy : isFinite y = true)
    (h : toText x = toText y) : x = y := by
  have htext : text x = text y := String.ofList_inj.1 h
  have hread := readFinite_text hx
  rw [htext, readFinite_text hy] at hread
  exact (Option.some.inj hread).symm

namespace Formula

theorem Op.ofSymbol?_symbol (o : Op) : ofSymbol? o.symbol = some o := by
  cases o <;> rfl

theorem Op.symbol_injective : Function.Injective symbol := by
  intro o o' h
  have hsymbol := congrArg ofSymbol? h
  rw [ofSymbol?_symbol, ofSymbol?_symbol] at hsymbol
  exact Option.some.inj hsymbol

theorem Op.symbol_ne_paren (o : Op) : o.symbol ≠ '(' ∧ o.symbol ≠ ')' := by
  cases o <;> decide

theorem Token.eq_of_key {t u : Token} (ht : ∀ x, t = .num x → Number.isFinite x = true)
    (hu : ∀ x, u = .num x → Number.isFinite x = true) (h : t.key = u.key) : t = u := by
  cases t with
  | num x =>
    cases u with
    | num y =>
      exact congrArg Token.num (Number.toText_inj (ht x rfl) (hu y rfl) (Key.number.inj h))
    | lparen | rparen | op _ | var _ => cases h
  | var name =>
    cases u with
    | var name' => exact congrArg Token.var (Key.variable.inj h)
    | lparen | rparen | op _ | num _ => cases h
  | lparen =>
    cases u with
    | lparen => rfl
    | op o => exact absurd (Key.symbol.inj h).symm o.symbol_ne_paren.1
    | rparen | var _ | num _ => cases h
  | rparen =>
    cases u with
    | rparen => rfl
    | op o => exact absurd (Key.symbol.inj h).symm o.symbol_ne_paren.2
    | lparen | var _ | num _ => cases h
  | op o =>
    cases u with
    | op o' => exact congrArg Token.op (Op.symbol_injective (Key.symbol.inj h))
    | lparen => exact absurd (Key.symbol.inj h) o.symbol_ne_paren.1
    | rparen => exact absurd (Key.symbol.inj h) o.symbol_ne_paren.2
    | var _ | num _ => cases h

theorem eq_of_map_key {ts us : List Token} (ht : ∀ x, .num x ∈ ts → Number.isFinite x = true)
    (hu : ∀ x, .num x ∈ us → Number.isFinite x = true) (h : ts.map Token.key = us.map Token.key) :
    ts = us := by
  induction ts generalizing us with
  | nil => exact (List.map_eq_nil_iff.1 h.symm).symm
  | cons t ts ih =>
    cases us with
    | nil => cases h
    | cons u us =>
      obtain ⟨hkey, hkeys⟩ := List.cons.inj h
      have hhead : t = u := Token.eq_of_key (fun x hx => ht x (by simp [hx]))
        (fun x hx => hu x (by simp [hx])) hkey
      have htail : ts = us := ih (fun x hx => ht x (List.mem_cons_of_mem t hx))
        (fun x hx => hu x (List.mem_cons_of_mem u hx)) hkeys
      rw [hhead, htail]

theorem eq_of_beq {naming : Naming} {s s' : String} {f g : Formula} (hf : parse naming s = .ok f)
    (hg : parse naming s' = .ok g) (h : (f == g) = true) : f = g := by
  have hkeys : f.tokens.map Token.key = g.tokens.map Token.key := of_decide_eq_true h
  have htokens : f.tokens = g.tokens :=
    eq_of_map_key (fun x hx => (num_of_parse hf hx).1) (fun x hx => (num_of_parse hg hx).1) hkeys
  obtain ⟨_, -, -, -, htext⟩ := parse_eq_ok hf
  obtain ⟨_, -, -, -, htext'⟩ := parse_eq_ok hg
  rw [← htokens, ← htext] at htext'
  cases f
  cases g
  simp only at htokens htext'
  rw [htokens, htext']

end Formula
end Worksheet
