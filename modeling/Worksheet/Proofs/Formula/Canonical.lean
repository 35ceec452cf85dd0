import Worksheet.Formula.Basic
import Worksheet.Proofs.Formula.Language
import Worksheet.Proofs.Formula.Pieces

set_option autoImplicit false

/-!
# Canonical texts

The text of a formula is read as that formula again: its tokens stand in it one after the other, and
their variables and numbers are normalized already.
-/
namespace Worksheet

def Naming.KeepsNumbers (naming : Naming) : Prop :=
  ∀ x, Number.isFinite x = true → Number.isNegative x = false →
    naming.normalize (Number.toText x) = Number.toText x

/-- Normalizing twice changes nothing more, and the texts of numbers are left as they are. -/
structure Naming.Stable (naming : Naming) : Prop where
  idempotent : ∀ s, naming.normalize (naming.normalize s) = naming.normalize s
  number : ∀ x, Number.isFinite x = true → Number.isNegative x = false →
    naming.normalize (Number.toText x) = Number.toText x

namespace Formula

section mapVar

def Token.mapVar (g : String → String) : Token → Token
  | .var name => .var (g name)
  | t => t

def Tree.mapVar (g : String → String) : {r : Rank} → Tree r → Tree r
  | _, num x => num x
  | _, var name => var (g name)
  | _, parens e => parens (e.mapVar g)
  | _, operand f => operand (f.mapVar g)
  | _, product t o h f => product (t.mapVar g) o h (f.mapVar g)
  | _, term t => term (t.mapVar g)
  | _, sum e o h t => sum (e.mapVar g) o h (t.mapVar g)

variable (g : String → String)

theorem Tree.tokens_mapVar {r : Rank} (e : Tree r) :
    (e.mapVar g).tokens = e.tokens.map (Token.mapVar g) := by
  induction e with
  | num x => rfl
  | var name => rfl
  | parens e ih => simp [mapVar, tokens, Token.mapVar, ih]
  | operand f ih => exact ih
  | product t o h f iht ihf => simp [mapVar, tokens, Token.mapVar, iht, ihf]
  | term t ih => exact ih
  | sum e o h t ihe iht => simp [mapVar, tokens, Token.mapVar, ihe, iht]

theorem check_mapVar {ts : List Token} (h : check ts = .ok ()) :
    check (ts.map (Token.mapVar g)) = .ok () := by
  obtain ⟨e, rfl⟩ := Tree.exists_tokens_of_check h
  rw [← e.tokens_mapVar]
  exact (e.mapVar g).check_tokens

end mapVar

section rename

theorem rename_eq_ok {naming : Naming} {t u : Token} (h : rename naming t = .ok u) :
    u = t.mapVar naming.normalize ∧
      ∀ v, u = .var v → isVariable v = true ∧ naming.accepts v = true := by
  cases t with
  | var name =>
    unfold rename at h
    dsimp only at h
    split at h
    · cases h
    split at h
    · cases h
    · rename_i hvariable haccepts
      obtain rfl := Except.ok.inj h
      refine ⟨rfl, fun v hv => ?_⟩
      obtain rfl := Token.var.inj hv
      exact ⟨by simpa using hvariable, by simpa using haccepts⟩
  | lparen | rparen | op _ | num _ =>
    obtain rfl := Except.ok.inj h
    exact ⟨rfl, fun v hv => nomatch hv⟩

theorem mapM_rename_eq_ok {naming : Naming} {ts us : List Token}
    (h : ts.mapM (rename naming) = .ok us) : us = ts.map (Token.mapVar naming.normalize) ∧
      ∀ v, .var v ∈ us → isVariable v = true ∧ naming.accepts v = true := by
  induction ts generalizing us with
  | nil =>
    obtain rfl : [] = us := Except.ok.inj h
    exact ⟨rfl, fun v hv => absurd hv List.not_mem_nil⟩
  | cons t ts ih =>
    rw [List.mapM_cons] at h
    cases ht : rename naming t with
    | error e => simp [ht, bind, Except.bind] at h
    | ok u =>
      cases hts : ts.mapM (rename naming) with
      | error e => simp [ht, hts, bind, Except.bind] at h
      | ok us' =>
        rw [ht, hts] at h
        obtain rfl : u :: us' = us := Except.ok.inj h
        obtain ⟨hu, hvar⟩ := rename_eq_ok ht
        obtain ⟨hus, hvars⟩ := ih hts
        refine ⟨by rw [hu, hus]; rfl, fun v hv => ?_⟩
        rcases List.mem_cons.1 hv with heq | hv
        · exact hvar v heq.symm
        · exact hvars v hv

theorem mapM_rename_self {naming : Naming} {ts : List Token}
    (h : ∀ v, .var v ∈ ts → naming.normalize v = v ∧ isVariable v = true ∧
      naming.accepts v = true) : ts.mapM (rename naming) = .ok ts := by
  induction ts with
  | nil => rfl
  | cons t ts ih =>
    have ht : rename naming t = .ok t := by
      cases t with
      | var v =>
        obtain ⟨hv, hvariable, haccepts⟩ := h v List.mem_cons_self
        simp [rename, hv, hvariable, haccepts]
      | lparen | rparen | op _ | num _ => rfl
    rw [List.mapM_cons, ht, ih fun v hv => h v (List.mem_cons_of_mem t hv)]
    rfl

end rename

section lexing

theorem tokens?_num {k : Kind} {piece : List Char} {ts : List Token}
    (h : k.tokens? piece = some ts) {x : Float} (hx : .num x ∈ ts) :
    k = .numeral ∧ Number.readFinite piece = some x := by
  cases k with
  | numeral =>
    obtain ⟨y, hy, rfl⟩ := Option.map_eq_some_iff.1 h
    obtain rfl : x = y := by simpa using hx
    exact ⟨rfl, hy⟩
  | blank | lparen | rparen | op _ | word =>
    obtain rfl := Option.some.inj h
    simp at hx

theorem head?_numeral {cs piece rest : List Char}
    (h : piece? cs = some (.numeral, piece, rest)) : piece.head? ≠ some '-' := by
  intro hhead
  obtain ⟨hsplit, -⟩ := piece?_append h
  obtain ⟨ds, rfl⟩ := List.head?_eq_some_iff.1 hhead
  have hsymbol := piece?_symbol .sub (ds ++ rest)
  rw [← hsplit, List.cons_append] at h
  rw [show Op.sub.symbol = '-' from rfl, h] at hsymbol
  cases hsymbol

theorem lex_num {cs : List Char} {ts : List Token} (h : lex cs = .ok ts) {x : Float}
    (hx : .num x ∈ ts) : Number.isFinite x = true ∧ Number.isNegative x = false := by
  fun_induction lex cs generalizing ts with
  | case1 =>
    obtain rfl := Except.ok.inj h
    cases hx
  | case2 => cases h
  | case3 => cases h
  | case4 => cases h
  | case5 cs k piece rest hp us hk vs hrest ih =>
    obtain rfl := Except.ok.inj h
    rcases List.mem_append.1 hx with hx | hx
    · obtain ⟨rfl, hread⟩ := tokens?_num hk hx
      exact ⟨Number.isFinite_of_readFinite hread,
        Number.isNegative_of_readFinite hread (head?_numeral hp)⟩
    · exact ih hrest hx

theorem tokens?_var {k : Kind} {piece : List Char} {ts : List Token}
    (h : k.tokens? piece = some ts) {v : String} (hv : .var v ∈ ts) :
    k = .word ∧ v = String.ofList piece := by
  cases k with
  | word =>
    obtain rfl := Option.some.inj h
    exact ⟨rfl, Token.var.inj (List.mem_singleton.1 hv)⟩
  | numeral =>
    obtain ⟨x, -, rfl⟩ := Option.map_eq_some_iff.1 h
    simp at hv
  | blank | lparen | rparen | op _ =>
    obtain rfl := Option.some.inj h
    simp at hv

theorem isVariable_of_piece? {cs piece rest : List Char}
    (h : piece? cs = some (.word, piece, rest)) : isVariable (String.ofList piece) = true := by
  cases cs with
  | nil => cases h
  | cons c cs =>
    simp only [piece?] at h
    split at h
    · cases h
    split at h
    · cases h
    split at h
    · cases h
    split at h
    · cases h
    split at h
    · rename_i hc
      obtain ⟨rfl, -⟩ : c :: cs.takeWhile isWordChar = piece ∧ _ := by simpa using h
      refine isVariable_iff.2 ⟨c, _, String.toList_ofList, hc, fun d hd => ?_⟩
      exact List.all_eq_true.1 List.all_takeWhile d hd
    · simp at h

theorem lex_var {cs : List Char} {ts : List Token} (h : lex cs = .ok ts) {v : String}
    (hv : .var v ∈ ts) : isVariable v = true := by
  fun_induction lex cs generalizing ts with
  | case1 =>
    obtain rfl := Except.ok.inj h
    cases hv
  | case2 => cases h
  | case3 => cases h
  | case4 => cases h
  | case5 cs k piece rest hp us hk vs hrest ih =>
    obtain rfl := Except.ok.inj h
    rcases List.mem_append.1 hv with hv | hv
    · obtain ⟨rfl, rfl⟩ := tokens?_var hk hv
      exact isVariable_of_piece? hp
    · exact ih hrest hv

/-- Texts of tokens stop what stands before them, if the tokens go on and write that as themselves. -/
theorem stops_flatMap {piece : Token → String}
    (hpiece : ∀ t, t.continuesTerm = true → piece t = t.text) {ts : List Token}
    (h : ∀ t, ts.head? = some t → t.continuesTerm = true) :
    Stops (ts.flatMap fun t => (piece t).toList) := by
  cases ts with
  | nil => exact fun c hc => nomatch hc
  | cons t ts =>
    obtain ⟨d, hd, hmark⟩ := Token.exists_mark (h t rfl)
    intro c hc
    rw [List.flatMap_cons, hpiece t (h t rfl), hd] at hc
    obtain rfl : d = c := Option.some.inj hc
    rcases hmark with ⟨rfl, -⟩ | ⟨o, rfl, -⟩
    · exact .inl rfl
    · exact .inr ⟨o, rfl⟩

/-- The texts of fitting tokens, one after the other, are read as these tokens. -/
theorem lex_texts {ts : List Token} (hwritten : ∀ t ∈ ts, t.IsWritten)
    (hneighbours : checkNeighbours ts = .ok ()) :
    lex (ts.flatMap fun t => t.text.toList) = .ok ts := by
  induction ts with
  | nil => exact lex_nil
  | cons t ts ih =>
    obtain ⟨hrest, hclose, -⟩ := Tree.checkNeighbours_cons hneighbours
    have hlex := ih (fun u hu => hwritten u (List.mem_cons_of_mem t hu)) hrest
    rw [List.flatMap_cons]
    exact lex_token (hwritten t List.mem_cons_self)
      (fun ht => stops_flatMap (fun _ _ => rfl) (hclose ht)) hlex

end lexing

theorem parse_eq_ok {naming : Naming} {s : String} {f : Formula} (h : parse naming s = .ok f) :
    ∃ written, tokenize s = .ok written ∧ check written = .ok () ∧
      written.mapM (rename naming) = .ok f.tokens ∧
      f.text = String.join (f.tokens.map (canonicalPiece naming)) := by
  unfold parse at h
  cases hwritten : tokenize s with
  | error e => simp [hwritten, bind, Except.bind] at h
  | ok written =>
    cases hcheck : check written with
    | error e => simp [hwritten, hcheck, bind, Except.bind] at h
    | ok _ =>
      cases htokens : written.mapM (rename naming) with
      | error e => simp [hwritten, hcheck, htokens, bind, Except.bind] at h
      | ok tokens =>
        rw [hwritten] at h
        simp only [bind, Except.bind, hcheck, htokens] at h
        obtain rfl := Except.ok.inj h
        exact ⟨written, rfl, hcheck, htokens, rfl⟩

theorem parse_of_checked {naming : Naming} {s : String} {written tokens : List Token}
    (hlex : tokenize s = .ok written) (hcheck : check written = .ok ())
    (hrename : written.mapM (rename naming) = .ok tokens) :
    parse naming s = .ok ⟨tokens, String.join (tokens.map (canonicalPiece naming))⟩ := by
  unfold parse
  rw [hlex]
  simp only [bind, Except.bind, hcheck, hrename]
  rfl

theorem parse_var {naming : Naming} {name : String} (hvariable : isVariable name = true)
    (hnormal : naming.normalize name = name) (haccepts : naming.accepts name = true) :
    parse naming name = .ok ⟨[.var name], name⟩ := by
  have hlex : tokenize name = .ok [.var name] := by
    have hend : Stops [] := fun c hc => nomatch hc
    have hread := lex_token (t := .var name) hvariable (fun _ => hend) lex_nil
    rw [List.append_nil] at hread
    exact hread
  have hrename : [.var name].mapM (rename naming) = .ok [.var name] := by
    refine mapM_rename_self fun v hv => ?_
    obtain rfl := Token.var.inj (List.mem_singleton.1 hv)
    exact ⟨hnormal, hvariable, haccepts⟩
  have htext : String.join ([.var name].map (canonicalPiece naming)) = name := by
    apply String.toList_inj.1
    rw [String.toList_join]
    exact List.append_nil _
  rw [parse_of_checked hlex rfl hrename, htext]

theorem accepts_of_parse {naming : Naming} {s : String} {f : Formula} (h : parse naming s = .ok f)
    {v : String} (hv : .var v ∈ f.tokens) : isVariable v = true ∧ naming.accepts v = true := by
  obtain ⟨written, -, -, hrename, -⟩ := parse_eq_ok h
  exact (mapM_rename_eq_ok hrename).2 v hv

theorem written_of_parse {naming : Naming} {s : String} {f : Formula} (h : parse naming s = .ok f)
    {v : String} (hv : .var v ∈ f.tokens) :
    ∃ name, isVariable name = true ∧ v = naming.normalize name := by
  obtain ⟨written, hlex, -, hrename, -⟩ := parse_eq_ok h
  rw [(mapM_rename_eq_ok hrename).1] at hv
  obtain ⟨t, ht, heq⟩ := List.mem_map.1 hv
  cases t with
  | var name => exact ⟨name, lex_var hlex ht, (Token.var.inj heq).symm⟩
  | lparen | rparen | op _ | num _ => cases heq

theorem var_of_parse {naming : Naming} (hnaming : naming.Stable) {s : String} {f : Formula}
    (h : parse naming s = .ok f) {v : String} (hv : .var v ∈ f.tokens) :
    naming.normalize v = v ∧ isVariable v = true ∧ naming.accepts v = true := by
  obtain ⟨name, -, hname⟩ := written_of_parse h hv
  refine ⟨?_, accepts_of_parse h hv⟩
  rw [hname]
  exact hnaming.idempotent name

theorem num_of_parse {naming : Naming} {s : String} {f : Formula} (h : parse naming s = .ok f)
    {x : Float} (hx : .num x ∈ f.tokens) :
    Number.isFinite x = true ∧ Number.isNegative x = false := by
  obtain ⟨written, hlex, -, hrename, -⟩ := parse_eq_ok h
  rw [(mapM_rename_eq_ok hrename).1] at hx
  obtain ⟨t, ht, heq⟩ := List.mem_map.1 hx
  cases t with
  | num y =>
    obtain rfl := Token.num.inj heq
    exact lex_num hlex ht
  | lparen | rparen | op _ | var _ => cases heq

theorem check_of_parse {naming : Naming} {s : String} {f : Formula} (h : parse naming s = .ok f) :
    check f.tokens = .ok () := by
  obtain ⟨written, -, hcheck, hrename, -⟩ := parse_eq_ok h
  rw [(mapM_rename_eq_ok hrename).1]
  exact check_mapVar _ hcheck

theorem isWritten_of_parse {naming : Naming} {s : String} {f : Formula} (h : parse naming s = .ok f) :
    ∀ t ∈ f.tokens, t.IsWritten := by
  intro t ht
  cases t with
  | num x => exact num_of_parse h ht
  | var v => exact (accepts_of_parse h ht).1
  | lparen | rparen | op _ => trivial

/-- A naming that keeps the texts of numbers writes all tokens as they are. -/
theorem canonicalPiece_eq_text {naming : Naming} (hnumber : naming.KeepsNumbers) {t : Token}
    (ht : t.IsWritten) : canonicalPiece naming t = t.text := by
  cases t with
  | num x => exact hnumber x ht.1 ht.2
  | lparen | rparen | op _ | var _ => rfl

theorem join_pieces {naming naming' : Naming} (hnumber : naming.KeepsNumbers) {s : String}
    {f : Formula} (h : parse naming' s = .ok f) :
    String.join (f.tokens.map (canonicalPiece naming)) = String.join (f.tokens.map Token.text) :=
  congrArg String.join (List.map_congr_left fun t ht =>
    canonicalPiece_eq_text hnumber (isWritten_of_parse h t ht))

theorem text_of_parse {naming : Naming} (hnumber : naming.KeepsNumbers) {s : String} {f : Formula}
    (h : parse naming s = .ok f) : f.text = String.join (f.tokens.map Token.text) := by
  obtain ⟨written, -, -, -, htext⟩ := parse_eq_ok h
  rw [htext, join_pieces hnumber h]

theorem tokenize_text {naming : Naming} (hnumber : naming.KeepsNumbers) {s : String} {f : Formula}
    (h : parse naming s = .ok f) : tokenize f.text = .ok f.tokens := by
  unfold tokenize
  rw [text_of_parse hnumber h, String.toList_join, List.flatMap_map]
  exact lex_texts (isWritten_of_parse h) (Tree.check_eq_ok (check_of_parse h)).2.2

/-- The text of a formula is read as that formula under a naming that has nothing to change in it. -/
theorem parse_text_of_normal {naming naming' : Naming} (hnumber : naming.KeepsNumbers)
    (hnumber' : naming'.KeepsNumbers) {s : String} {f : Formula} (h : parse naming s = .ok f)
    (hvar : ∀ v, .var v ∈ f.tokens → naming'.normalize v = v ∧ naming'.accepts v = true) :
    parse naming' f.text = .ok f := by
  have hrename : f.tokens.mapM (rename naming') = .ok f.tokens := by
    refine mapM_rename_self fun v hv => ?_
    obtain ⟨hnormal, haccepts⟩ := hvar v hv
    exact ⟨hnormal, (accepts_of_parse h hv).1, haccepts⟩
  have htext : String.join (f.tokens.map (canonicalPiece naming')) = f.text :=
    (join_pieces hnumber' h).trans (text_of_parse hnumber h).symm
  rw [parse_of_checked (tokenize_text hnumber h) (check_of_parse h) hrename, htext]

theorem parse_text {naming : Naming} (hnaming : naming.Stable) {s : String} {f : Formula}
    (h : parse naming s = .ok f) : parse naming f.text = .ok f := by
  refine parse_text_of_normal hnaming.number hnaming.number h fun v hv => ?_
  obtain ⟨hnormal, -, haccepts⟩ := var_of_parse hnaming h hv
  exact ⟨hnormal, haccepts⟩

end Formula
end Worksheet
