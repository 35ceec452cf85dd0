import Worksheet.Proofs.Markup.Reader

set_option autoImplicit false

/-!
# Cut markup

Written markup may be cut anywhere. A cut shows in the text behind the last `<` or `>`, as part of a tag
or as part of a reference.
-/
namespace Worksheet.Markup
open Worksheet.Text (bytes prefix_append_cases)

section references

/-- Whether a text ends inside a reference, when it starts inside one or not. -/
def inReference (start : Bool) (cs : List Char) : Bool :=
  cs.foldl (fun inside c => c == '&' || inside && c != ';') start

theorem inReference_append (start : Bool) (cs ds : List Char) :
    inReference start (cs ++ ds) = inReference (inReference start cs) ds :=
  List.foldl_append

theorem inReference_body {cs : List Char} (h : ';' ∉ cs) : inReference true cs = true := by
  induction cs with
  | nil => rfl
  | cons c cs ih =>
    have hc : c ≠ ';' := fun he => h (he ▸ List.mem_cons_self)
    have hstart : (c == '&' || true && c != ';') = true := by simp [hc]
    unfold inReference
    rw [List.foldl_cons, hstart]
    exact ih fun hmem => h (List.mem_cons_of_mem c hmem)

theorem inReference_outside {cs : List Char} (h : '&' ∉ cs) : inReference false cs = false := by
  induction cs with
  | nil => rfl
  | cons c cs ih =>
    have hc : c ≠ '&' := fun he => h (he ▸ List.mem_cons_self)
    have hstart : (c == '&' || false && c != ';') = false := by simp [hc]
    unfold inReference
    rw [List.foldl_cons, hstart]
    exact ih fun hmem => h (List.mem_cons_of_mem c hmem)

theorem escapeChar_cases (c : Char) :
    (∃ body, escapeChar c = '&' :: (body ++ [';']) ∧ (∀ x ∈ body, (!endsReference x) = true) ∧
      ∀ start stop, referent start stop body = .ok c) ∨ c ≠ '&' ∧ escapeChar c = [c] := by
  have named (body : List Char) (h : body.all (!endsReference ·) = true) :
      ∀ x ∈ body, (!endsReference x) = true := List.all_eq_true.1 h
  unfold escapeChar
  split
  · exact .inl ⟨"amp".toList, rfl, named _ rfl, fun _ _ => rfl⟩
  · exact .inl ⟨"lt".toList, rfl, named _ rfl, fun _ _ => rfl⟩
  · exact .inl ⟨"gt".toList, rfl, named _ rfl, fun _ _ => rfl⟩
  · exact .inl ⟨"quot".toList, rfl, named _ rfl, fun _ _ => rfl⟩
  · exact .inl ⟨"apos".toList, rfl, named _ rfl, fun _ _ => rfl⟩
  · exact .inl ⟨"#13".toList, rfl, named _ rfl, fun _ _ => rfl⟩
  · rename_i h _ _ _ _ _
    exact .inr ⟨h, rfl⟩

theorem unescapeFrom_cut (size offset : Nat) {body : List Char}
    (h : ∀ x ∈ body, (!endsReference x) = true) :
    unescapeFrom size offset ('&' :: body) = .error (.unterminated offset size) := by
  have hend : body[body.length]? = none := List.getElem?_eq_none (Nat.le_refl _)
  rw [unescapeFrom, if_pos rfl]
  dsimp only
  rw [List.takeWhile_eq_self_iff.2 h, hend, if_neg (by decide)]

theorem exists_map_ok {ε α β : Type} (x : Except ε α) (f : α → β) :
    (∃ b, x.map f = .ok b) ↔ ∃ a, x = .ok a := by
  cases x with
  | error e => exact ⟨nofun, nofun⟩
  | ok a => exact iff_of_true ⟨f a, rfl⟩ ⟨a, rfl⟩

/-- An escaped text that is cut can be read exactly if the cut is not in a reference. -/
theorem unescapeFrom_prefix (size offset : Nat) {cs p : List Char} (h : p <+: escape cs) :
    (∃ ds, unescapeFrom size offset p = .ok ds) ↔ inReference false p = false := by
  have hnil (offset : Nat) : (∃ ds, unescapeFrom size offset [] = .ok ds) ↔
      inReference false [] = false :=
    iff_of_true ⟨[], by rw [unescapeFrom]⟩ rfl
  induction cs generalizing p offset with
  | nil =>
    obtain rfl := List.prefix_nil.1 h
    exact hnil offset
  | cons c cs ih =>
    have hp : p <+: escapeChar c ++ escape cs := h
    rcases escapeChar_cases c with ⟨body, hbody, hclear, hc⟩ | ⟨hc, hplain⟩
    · have hsemicolon : ';' ∉ body := fun hmem => by
        have hends := hclear ';' hmem
        cases hends
      rw [hbody, List.cons_append, List.append_assoc, List.singleton_append] at hp
      rcases List.prefix_cons_iff.1 hp with rfl | ⟨q, rfl, hq⟩
      · exact hnil offset
      rcases prefix_append_cases hq with hq | ⟨r, hr, rfl⟩
      · have hinside : inReference false ('&' :: q) = true :=
          inReference_body fun hmem => hsemicolon (hq.subset hmem)
        rw [unescapeFrom_cut size offset fun x hx => hclear x (hq.subset hx), hinside]
        exact iff_of_false (by simp) (by decide)
      rcases List.prefix_cons_iff.1 hr with rfl | ⟨rest, rfl, hrest⟩
      · have hinside : inReference false ('&' :: (body ++ [])) = true := by
          rw [List.append_nil]
          exact inReference_body hsemicolon
        rw [hinside, List.append_nil, unescapeFrom_cut size offset hclear]
        exact iff_of_false (by simp) (by decide)
      · have hafter : inReference false ('&' :: (body ++ ';' :: rest)) = inReference false rest := by
          change inReference true (body ++ ';' :: rest) = _
          rw [inReference_append, inReference_body hsemicolon]
          rfl
        rw [unescapeFrom_reference hclear size offset rest (hc _ _), exists_map_ok, hafter]
        exact ih _ hrest
    · rw [hplain] at hp
      rcases List.prefix_cons_iff.1 hp with rfl | ⟨q, rfl, hq⟩
      · exact hnil offset
      · have hafter : inReference false (c :: q) = inReference false q := by
          rw [← List.singleton_append, inReference_append, inReference_outside]
          simpa using hc.symm
        rw [unescapeFrom_cons hc, exists_map_ok, hafter]
        exact ih _ hq

end references

section marks

/-- The last `<` or `>` of a text, with what follows it. A text without any is as after a `>`. -/
def lastMark (cs : List Char) : Char × List Char :=
  cs.foldl (fun last c => if c = '<' ∨ c = '>' then (c, []) else (last.1, last.2 ++ [c])) ('>', [])

theorem foldl_mark_of_not_mem {text : List Char} (h : '<' ∉ text) (h' : '>' ∉ text)
    (last : Char × List Char) :
    text.foldl (fun last c => if c = '<' ∨ c = '>' then (c, []) else (last.1, last.2 ++ [c])) last =
      (last.1, last.2 ++ text) := by
  induction text generalizing last with
  | nil => simp
  | cons c text ih =>
    have hc : ¬(c = '<' ∨ c = '>') := by
      rintro (rfl | rfl)
      · exact h List.mem_cons_self
      · exact h' List.mem_cons_self
    rw [List.foldl_cons, if_neg hc, ih (fun hm => h (List.mem_cons_of_mem c hm))
      fun hm => h' (List.mem_cons_of_mem c hm)]
    simp

theorem lastMark_text {text : List Char} (h : '<' ∉ text) (h' : '>' ∉ text) :
    lastMark text = ('>', text) :=
  foldl_mark_of_not_mem h h' _

theorem lastMark_append (cs : List Char) {c : Char} (hc : c = '<' ∨ c = '>') (rest : List Char) :
    lastMark (cs ++ c :: rest) = lastMark (c :: rest) := by
  unfold lastMark
  rw [List.foldl_append, List.foldl_cons, List.foldl_cons, if_pos hc, if_pos hc]

theorem lastMark_tag {body : List Char} (h : '<' ∉ body) (h' : '>' ∉ body) :
    lastMark ('<' :: body) = ('<', body) :=
  foldl_mark_of_not_mem h h' _

theorem lastMark_after (rest : List Char) : lastMark ('>' :: rest) = lastMark rest := rfl

end marks

section tags

theorem tagLength?_prefix {quote : Option Char} {cs rest : List Char} {n : Nat}
    (h : tagLength? quote (cs ++ rest) = some n) (hlength : cs.length ≤ n) :
    tagLength? quote cs = none := by
  induction cs generalizing quote n with
  | nil => cases quote with
    | none => rfl
    | some _ => rfl
  | cons c cs ih =>
    have inner {quote : Option Char}
        (hrest : (tagLength? quote (cs ++ rest)).map (· + 1) = some n) :
        tagLength? quote cs = none := by
      obtain ⟨m, hm, rfl⟩ := Option.map_eq_some_iff.1 hrest
      exact ih hm (Nat.le_of_succ_le_succ hlength)
    cases quote with
    | none =>
      dsimp only [List.cons_append, tagLength?] at h ⊢
      split at h
      · cases h
        cases hlength
      · rename_i hc
        rw [if_neg hc, inner h]
        rfl
    | some q =>
      dsimp only [List.cons_append, tagLength?] at h ⊢
      rw [inner h]
      rfl

theorem piece_open_cut {content q : List Char}
    (hfirst : ∃ c cs, content = c :: cs ∧ c.isLower = true)
    (hlength : tagLength? none (content ++ ['>']) = some content.length) (hq : q <+: content)
    (hne : q ≠ []) (opened : List (List Char)) :
    piece opened q = .error (.unfinished .element) := by
  obtain ⟨c, cs, rfl, hc⟩ := hfirst
  rcases List.prefix_cons_iff.1 hq with rfl | ⟨q, rfl, -⟩
  · exact absurd rfl hne
  obtain ⟨rest, hrest⟩ := hq
  rw [← hrest, List.append_assoc] at hlength
  have hnone : tagLength? none (c :: q) = none := tagLength?_prefix hlength (by simp)
  rw [piece_of_isLower hc]
  unfold tag
  rw [hnone]

theorem piece_close_cut {name q : List Char} (hname : IsTagName name) (hq : q <+: name)
    (opened : List (List Char)) : piece (name :: opened) ('/' :: q) =
      if q = name then .ok ⟨.close name, name.length + 2⟩ else .error (.mismatch name q) := by
  have hlower : ∀ c ∈ q, c.isLower = true := fun c hc => hname.lower c (hq.subset hc)
  have hcontent : q.takeWhile (· ≠ '>') = q := List.takeWhile_eq_self_iff.2 fun c hc =>
    decide_eq_true (hname.ne (hq.subset hc) (by decide))
  have hclosing : closingName q = q := by
    by_cases hnil : q = []
    · rw [hnil]
      rfl
    · exact IsTagName.closingName_eq ⟨hnil, hlower⟩
  change closing (name :: opened) q = _
  unfold closing
  dsimp only
  rw [hcontent, hclosing]
  split
  · rename_i heq
    rw [heq]
  · rfl

end tags

end Worksheet.Markup
