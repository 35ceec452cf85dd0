import Worksheet.Proofs.Markup.Cut
import Worksheet.Proofs.Snapshot.Xml

set_option autoImplicit false

/-!
# Truncated documents in the XML format

What is left of a snapshot whose text was cut off somewhere is an error where the cut is in the middle of
a tag or a reference. Elsewhere it reads as a snapshot with the records up to the cut.
-/
namespace Worksheet.Xml
open Worksheet.Markup
open Worksheet.Text (prefix_append_cases)

def closingTags : List (List Char) := elementNames.map ('/' :: ·)

/-- The text ends in a tag or in a reference. A `<` alone is none, and a closing tag is whole without
its `>`. -/
def Torn (cs : List Char) : Prop :=
  if (lastMark cs).1 = '<' then (lastMark cs).2 ≠ [] ∧ (lastMark cs).2 ∉ closingTags
  else inReference false (lastMark cs).2 = true

instance (cs : List Char) : Decidable (Torn cs) := inferInstanceAs (Decidable (ite _ _ _))

def closedCells : List Char → Nat
  | [] => 0
  | c :: cs => closedCells cs + if c = '<' ∧ '/' :: cellTag <+: cs then 1 else 0

section torn

theorem torn_text {text : List Char} (h : '<' ∉ text) (h' : '>' ∉ text) :
    Torn text ↔ inReference false text = true := by
  unfold Torn
  rw [lastMark_text h h']
  rfl

theorem torn_append (cs : List Char) {c : Char} (hc : c = '<' ∨ c = '>') (rest : List Char) :
    Torn (cs ++ c :: rest) ↔ Torn (c :: rest) := by
  unfold Torn
  rw [lastMark_append cs hc]

theorem torn_tag {body : List Char} (h : '<' ∉ body) (h' : '>' ∉ body) :
    Torn ('<' :: body) ↔ body ≠ [] ∧ body ∉ closingTags := by
  unfold Torn
  rw [lastMark_tag h h', if_pos rfl]

theorem torn_after (body rest : List Char) : Torn ('<' :: (body ++ '>' :: rest)) ↔ Torn rest := by
  rw [← List.cons_append, torn_append _ (.inr rfl)]
  unfold Torn
  rw [lastMark_after]

theorem closedCells_append {text : List Char} (h : '<' ∉ text) (rest : List Char) :
    closedCells (text ++ rest) = closedCells rest := by
  induction text with
  | nil => rfl
  | cons c text ih =>
    have hc : ¬(c = '<' ∧ '/' :: cellTag <+: text ++ rest) := fun hclose =>
      h (hclose.1 ▸ List.mem_cons_self)
    rw [List.cons_append, closedCells, if_neg hc]
    exact ih fun hmem => h (List.mem_cons_of_mem c hmem)

theorem closedCells_tag {body : List Char} (hfirst : ∃ c cs, body = c :: cs ∧ c ≠ '/')
    (h : '<' ∉ body) (rest : List Char) : closedCells ('<' :: (body ++ rest)) = closedCells rest := by
  have hclose : ¬ '/' :: cellTag <+: body ++ rest := by
    obtain ⟨c, cs, rfl, hc⟩ := hfirst
    exact fun hstart => hc (List.cons_prefix_cons.1 hstart).1.symm
  rw [closedCells, if_neg fun hcell => hclose hcell.2]
  exact closedCells_append h rest

theorem closedCells_text {text : List Char} (h : '<' ∉ text) : closedCells text = 0 := by
  have hnone := closedCells_append h []
  rwa [List.append_nil] at hnone

end torn

section outcomes

def outcome (document : List Char) (s : State) (r : Reading) : Except DecodeError Snapshot :=
  match r.items.foldlM (step document) s with
  | .error e => .error e
  | .ok s =>
    match r.fault with
    | some fault => .error (.markup fault)
    | none => finish s

theorem decode_eq_outcome (text : String) :
    decode text = outcome text.toList .initial (Markup.read text.toList) :=
  rfl

/-- What is left of a document gives this snapshot, or an error for none, wherever it stands. -/
def Gives (opened : List (List Char)) (s : State) (cs : List Char) (result : Option Snapshot) :
    Prop :=
  ∀ document offset, (outcome document s (readFrom offset opened cs)).toOption = result

variable {opened : List (List Char)} {s t u : State} {text body : List Char}
  {result : Option Snapshot}

theorem gives_of_reads {cs : List Char} {events : List Event} (h : Reads opened cs events)
    (hrun : ∀ document, run document events s = .ok t) : Gives opened s cs (finish t).toOption := by
  intro document offset
  obtain ⟨hevents, hfault⟩ := h offset
  have hdocument := hrun document
  rw [← hevents] at hdocument
  unfold outcome
  rw [foldlM_of_run hdocument, hfault]

theorem gives_none_of_reads {cs : List Char} {events : List Event} (h : Reads opened cs events)
    (hrun : ∀ document t, run document events s ≠ .ok t) : Gives opened s cs none := by
  intro document offset
  obtain ⟨hevents, -⟩ := h offset
  unfold outcome
  split
  · rfl
  · rename_i t hfold
    rw [foldlM_iff_run, hevents] at hfold
    exact absurd hfold (hrun document t)

theorem foldlM_piece {document : List Char} {before : List Item} {event : Event}
    (hrun : run document (before.map Item.event) s = .ok t)
    (hstep : step document t ⟨event, 0⟩ = .ok u) (stop : Nat) (items : List Item) :
    (before ++ ⟨event, stop⟩ :: items).foldlM (step document) s =
      items.foldlM (step document) u := by
  rw [List.foldlM_append, foldlM_of_run hrun]
  change (step document t ⟨event, stop⟩ >>= items.foldlM (step document)) = _
  rw [step_stop hstep stop]
  rfl

theorem gives_piece {event : Event} {n : Nat} (h : '<' ∉ text) (hbody : body ≠ [])
    (hpiece : piece opened body = .ok ⟨event, n⟩)
    (htext : ∀ document, run document (textEvents text) s = .ok t)
    (hstep : ∀ document, step document t ⟨event, 0⟩ = .ok u)
    (hrest : Gives (event.openedAfter opened) u (body.drop n) result) :
    Gives opened s (text ++ '<' :: body) result := by
  intro document offset
  obtain ⟨before, stop, hbefore, hread⟩ := readFrom_of_piece h hbody hpiece offset
  have hrun := htext document
  rw [← hbefore] at hrun
  rw [hread, ← hrest document stop]
  unfold outcome
  dsimp only
  rw [foldlM_piece hrun (hstep document)]

theorem gives_fault {fault : Fault} (h : '<' ∉ text) (hbody : body ≠ [])
    (hpiece : piece opened body = .error fault) : Gives opened s (text ++ '<' :: body) none := by
  intro document offset
  unfold outcome
  rw [readFrom_of_fault h hbody hpiece offset]
  split
  · rfl
  · rfl

end outcomes

section texts

/-- A text between tags, after the first of which the state is `s` and before the second `t`. -/
structure Passage (s t : State) (text : List Char) : Prop where
  tag : '<' ∉ text
  mark : '>' ∉ text
  run : ∀ document, run document (textEvents text) s = .ok t
  finish : finish t = finish s
  cut : ∀ opened p, p <+: text →
    Gives opened s p (if inReference false p = true then none else (Xml.finish s).toOption)

theorem passage_outside {s : State} (h : s.field = none) (n : Nat) : Passage s s (indent n) where
  tag := not_mem_indent n
  mark := not_mem_indent_of_ne (by decide) (by decide) n
  run document := run_outside document _ h
  finish := rfl
  cut opened p hp := by
    have hplain : inReference false p = false := inReference_outside fun hmem =>
      not_mem_indent_of_ne (by decide) (by decide) n (hp.subset hmem)
    rw [hplain, if_neg nofun]
    exact gives_of_reads (reads_end (fun hmem => not_mem_indent n (hp.subset hmem)) opened)
      fun document => run_outside document p h

theorem passage_inside {s : State} {field : Field} (h : s.field = some field) (cs : List Char) :
    Passage s { s with text := s.text ++ cs } (escape cs) where
  tag := not_mem_escape (by decide) cs
  mark := not_mem_escape (by decide) cs
  run document := run_inside document cs h
  finish := rfl
  cut opened p hp := by
    have hread := reads_end (fun hmem => not_mem_escape (by decide) cs (hp.subset hmem)) opened
    have hreads : (∃ ds, unescape p = .ok ds) ↔ inReference false p = false :=
      unescapeFrom_prefix _ _ hp
    cases hunescape : unescape p with
    | error fault =>
      have hinside : inReference false p = true := by
        rw [← Bool.not_eq_false, ← hreads, hunescape]
        nofun
      rw [if_pos hinside]
      refine gives_none_of_reads hread fun document t => ?_
      rw [run_text document h, hunescape]
      nofun
    | ok ds =>
      have houtside := hreads.1 ⟨ds, hunescape⟩
      rw [houtside, if_neg nofun]
      refine gives_of_reads (t := { s with text := s.text ++ ds }) hread fun document => ?_
      rw [run_text document h, hunescape]

end texts

section cuts

variable (version : String)

/-- What a text gives after the records of a state, when these records follow in it: an error if it is
torn, and else a snapshot with those records of which the cell ends in it. -/
def cutResult (s : State) (records : List Record) (cs : List Char) : Option Snapshot :=
  if Torn cs then none
  else some ⟨version, s.records.reverse ++ records.take (closedCells cs)⟩

/-- The text, cut anywhere, gives the records the cells of which it ends. -/
def Cuts (opened : List (List Char)) (s : State) (records : List Record) (cs : List Char) : Prop :=
  ∀ p, p <+: cs → Gives opened s p (cutResult version s records p)

variable {version} {opened : List (List Char)} {s t u : State} {records later : List Record}
  {text body name rest : List Char}

theorem cutResult_of_torn {cs : List Char} (h : Torn cs) : cutResult version s records cs = none := by
  unfold cutResult
  rw [if_pos h]

theorem cutResult_congr {cs ds : List Char} (htorn : Torn cs ↔ Torn ds)
    (hrecords : s.records.reverse ++ records.take (closedCells cs) =
      u.records.reverse ++ later.take (closedCells ds)) :
    cutResult version s records cs = cutResult version u later ds := by
  unfold cutResult
  rw [hrecords]
  simp only [htorn]

/-- Where no cell ends, the records are those of the state. -/
theorem cutResult_of_whole (h : s.version = some version) {cs : List Char} (htorn : ¬Torn cs)
    (hcells : closedCells cs = 0) : cutResult version s records cs = (finish s).toOption := by
  unfold cutResult finish
  rw [if_neg htorn, hcells, List.take_zero, List.append_nil, h]
  rfl

theorem cutResult_of_text (h : s.version = some version) {p : List Char} (htag : '<' ∉ p)
    (hmark : '>' ∉ p) : cutResult version s records p =
      if inReference false p = true then none else (finish s).toOption := by
  by_cases hp : inReference false p = true
  · rw [if_pos hp, cutResult_of_torn ((torn_text htag hmark).2 hp)]
  · rw [if_neg hp]
    exact cutResult_of_whole h (mt (torn_text htag hmark).1 hp) (closedCells_text htag)

theorem cuts_text (h : s.version = some version) (htext : Passage s t text) :
    Cuts version opened s records text := by
  intro p hp
  rw [cutResult_of_text h (fun hmem => htext.tag (hp.subset hmem))
    fun hmem => htext.mark (hp.subset hmem)]
  exact htext.cut opened p hp

theorem cutResult_append (s : State) (records : List Record) (htag : '<' ∉ text) (q : List Char) :
    cutResult version s records (text ++ '<' :: q) = cutResult version s records ('<' :: q) := by
  refine cutResult_congr (torn_append text (.inl rfl) q) ?_
  rw [closedCells_append htag]

theorem cuts_tag (h : s.version = some version) (htext : Passage s t text)
    (hcut : ∀ q, q <+: body → q ≠ [] →
      Gives opened s (text ++ '<' :: q) (cutResult version s records ('<' :: q)))
    (hrest : ∀ p, p <+: rest → Gives opened s (text ++ '<' :: (body ++ '>' :: p))
      (cutResult version s records ('<' :: (body ++ '>' :: p)))) :
    Cuts version opened s records (text ++ '<' :: (body ++ '>' :: rest)) := by
  have hinside : ∀ q, q <+: body →
      Gives opened s (text ++ '<' :: q) (cutResult version s records ('<' :: q)) := by
    intro q hq
    by_cases hne : q = []
    · rw [hne, cutResult_of_whole h (by decide) rfl, ← htext.finish]
      exact gives_of_reads (reads_bare htext.tag opened) htext.run
    · exact hcut q hq hne
  intro p hp
  rcases prefix_append_cases hp with hp | ⟨q, hq, rfl⟩
  · exact cuts_text h htext p hp
  rcases List.prefix_cons_iff.1 hq with rfl | ⟨r, rfl, hr⟩
  · rw [List.append_nil]
    exact cuts_text h htext text List.prefix_rfl
  rw [cutResult_append s records htext.tag]
  rcases prefix_append_cases hr with hr | ⟨tail, htail, rfl⟩
  · exact hinside r hr
  rcases List.prefix_cons_iff.1 htail with rfl | ⟨p, rfl, hbehind⟩
  · rw [List.append_nil]
    exact hinside body List.prefix_rfl
  · exact hrest p hbehind

theorem cuts_open (hname : IsTagName name) (h : s.version = some version) (htext : Passage s t text)
    (hstep : ∀ document, step document t ⟨.start ⟨name, []⟩, 0⟩ = .ok u)
    (hu : u.records = s.records) (hrest : Cuts version (name :: opened) u records rest) :
    Cuts version opened s records (text ++ '<' :: (name ++ '>' :: rest)) := by
  have hclear {c : Char} (hc : c.toNat < 97) : c ∉ name := fun hmem => hname.ne hmem hc rfl
  have hfirst : ∃ c cs, name = c :: cs ∧ c ≠ '/' := by
    obtain ⟨c, cs, rfl, -⟩ := hname.exists_cons
    exact ⟨c, cs, rfl, hname.ne List.mem_cons_self (by decide)⟩
  refine cuts_tag h htext (fun q hq hne => ?_) fun p hp => ?_
  · have htorn : Torn ('<' :: q) := by
      refine (torn_tag (fun hmem => hclear (by decide) (hq.subset hmem))
        fun hmem => hclear (by decide) (hq.subset hmem)).2 ⟨hne, fun hclosing => ?_⟩
      obtain ⟨tag, -, rfl⟩ := List.mem_map.1 hclosing
      exact hclear (c := '/') (by decide) (hq.subset List.mem_cons_self)
    rw [cutResult_of_torn htorn]
    exact gives_fault htext.tag hne
      (piece_open_cut hname.exists_cons (hname.tagLength?_eq []) hq hne opened)
  · have hresult : cutResult version s records ('<' :: (name ++ '>' :: p)) =
        cutResult version u records p := by
      refine cutResult_congr (torn_after name p) ?_
      have hcells : closedCells ('<' :: (name ++ '>' :: p)) = closedCells p :=
        closedCells_tag hfirst (hclear (by decide)) ('>' :: p)
      rw [hcells, hu]
    rw [hresult]
    refine gives_piece htext.tag (by simp) (piece_open hname opened p) htext.run hstep ?_
    rw [drop_mark]
    exact hrest p hp

theorem eq_of_prefix_closingTag :
    ∀ a ∈ closingTags, ∀ b ∈ closingTags, a <+: b → a = b := by
  decide

theorem cuts_close (hmem : name ∈ elementNames) (h : s.version = some version)
    (htext : Passage s t text)
    (hstep : ∀ document, step document t ⟨.close name, 0⟩ = .ok u) (hu : u.version = some version)
    (hrecords : ∀ rest, s.records.reverse ++
      records.take (closedCells ('<' :: '/' :: (name ++ rest))) =
        u.records.reverse ++ later.take (closedCells rest))
    (hrest : Cuts version opened u later rest) :
    Cuts version (name :: opened) s records (text ++ '<' :: '/' :: (name ++ '>' :: rest)) := by
  have hname : IsTagName name := isTagName_of_mem hmem
  have hclosing : '/' :: name ∈ closingTags := List.mem_map_of_mem hmem
  have hclear {c : Char} (hc : c.toNat < 97) (hslash : c ≠ '/') : c ∉ '/' :: name := by
    rw [List.mem_cons]
    rintro (rfl | hmem)
    · exact hslash rfl
    · exact hname.ne hmem hc rfl
  have hcut : ∀ q, q <+: '/' :: name → q ≠ [] →
      Gives (name :: opened) s (text ++ '<' :: q) (cutResult version s records ('<' :: q)) := by
    intro q hq hne
    have htorn := torn_tag (fun hmem => hclear (by decide) (by decide) (hq.subset hmem))
      fun hmem => hclear (by decide) (by decide) (hq.subset hmem)
    rcases List.prefix_cons_iff.1 hq with rfl | ⟨r, rfl, hr⟩
    · exact absurd rfl hne
    have hpiece := piece_close_cut hname hr opened
    by_cases hwhole : r = name
    · subst hwhole
      rw [if_pos rfl] at hpiece
      have hresult : cutResult version s records ('<' :: '/' :: r) = (finish u).toOption := by
        have hsame := hrecords []
        rw [List.append_nil] at hsame
        have hnone : Torn ('<' :: '/' :: r) ↔ Torn [] :=
          iff_of_false (fun h => (htorn.1 h).2 hclosing) (by decide)
        rw [cutResult_congr hnone hsame, cutResult_of_whole hu (by decide) rfl]
      rw [hresult]
      refine gives_piece htext.tag hne hpiece htext.run hstep ?_
      rw [List.drop_eq_nil_of_le (by simp)]
      exact gives_of_reads (reads_end List.not_mem_nil _) fun _ => rfl
    · rw [if_neg hwhole] at hpiece
      have hother : '/' :: r ∉ closingTags := fun hmem =>
        hwhole (List.cons.inj (eq_of_prefix_closingTag _ hmem _ hclosing hq)).2
      rw [cutResult_of_torn (htorn.2 ⟨hne, hother⟩)]
      exact gives_fault htext.tag hne hpiece
  have hcuts : Cuts version (name :: opened) s records
      (text ++ '<' :: ('/' :: name ++ '>' :: rest)) := by
    refine cuts_tag h htext hcut fun p hp => ?_
    have hresult : cutResult version s records ('<' :: ('/' :: name ++ '>' :: p)) =
        cutResult version u later p :=
      cutResult_congr (torn_after ('/' :: name) p) (hrecords ('>' :: p))
    rw [hresult]
    refine gives_piece htext.tag (by simp) (piece_close hname opened p) htext.run hstep ?_
    have hdrop : ('/' :: name ++ '>' :: p).drop (name.length + 2) = p :=
      drop_mark ('/' :: name) '>' p
    rw [hdrop]
    exact hrest p hp
  exact hcuts

end cuts

section records

/-- The records that are still to come are `records`; the ones `before` them are in the state. -/
theorem cuts_records (version : String) (before records : List Record) :
    Cuts version [spreadsheet] (between version before) (records.map trimName)
      (recordsText records) := by
  have hspreadsheet : spreadsheet ∈ elementNames := by decide
  have hcell : cellTag ∈ elementNames := by decide
  have hname : nameTag ∈ elementNames := by decide
  have hcontents : contentsTag ∈ elementNames := by decide
  induction records generalizing before with
  | nil =>
    exact cuts_close hspreadsheet rfl (passage_outside rfl 0) (fun _ => rfl) rfl (fun _ => rfl)
      (cuts_text rfl (passage_outside rfl 0))
  | cons r records ih =>
    have hend (document : List Char) : step document
        ⟨some version, before, true, none, [], some r.name.toList, some r.contents.toList⟩
        ⟨.close cellTag, 0⟩ = .ok (between version (trimName r :: before)) := by
      have hrecord : (⟨String.ofList (Text.trimList r.name.toList),
          String.ofList r.contents.toList⟩ : Record) = trimName r := by
        rw [String.ofList_toList]
        rfl
      rw [← hrecord]
      rfl
    have htaken (rest : List Char) : before.reverse ++ (trimName r :: records.map trimName).take
        (closedCells ('<' :: '/' :: (cellTag ++ rest))) =
          (trimName r :: before).reverse ++ (records.map trimName).take (closedCells rest) := by
      have hone : closedCells ('<' :: '/' :: (cellTag ++ rest)) = closedCells rest + 1 := rfl
      rw [hone, List.take_succ_cons, List.reverse_cons, List.append_assoc, List.singleton_append]
    have hcellEnd := cuts_close hcell rfl (passage_outside rfl 2) hend rfl htaken
      (ih (trimName r :: before))
    have hcontentsEnd := cuts_close
      (s := ⟨some version, before, true, some .contents, [], some r.name.toList, none⟩)
      hcontents rfl (passage_inside rfl r.contents.toList) (fun _ => rfl) rfl (fun _ => rfl)
      hcellEnd
    have hcontentsStart := cuts_open
      (s := ⟨some version, before, true, none, [], some r.name.toList, none⟩)
      (isTagName_of_mem hcontents) rfl (passage_outside rfl 4) (fun _ => rfl) rfl hcontentsEnd
    have hnameEnd := cuts_close (s := ⟨some version, before, true, some .name, [], none, none⟩)
      hname rfl (passage_inside rfl r.name.toList) (fun _ => rfl) rfl (fun _ => rfl) hcontentsStart
    have hnameStart := cuts_open (s := ⟨some version, before, true, none, [], none, none⟩)
      (isTagName_of_mem hname) rfl (passage_outside rfl 4) (fun _ => rfl) rfl hnameEnd
    exact cuts_open (isTagName_of_mem hcell) rfl (passage_outside rfl 2) (fun _ => rfl) rfl
      hnameStart

end records

section document

/-- The first tag of a snapshot, with what stands in front of it. -/
def firstTag (s : Snapshot) : List Char :=
  '<' :: '?' :: (declaration ++ '>' :: (indent 0 ++ '<' ::
    (spreadsheet ++ attributes s.version ++ ['>'])))

theorem toList_encode_eq (s : Snapshot) :
    (encode s).toList = firstTag s ++ recordsText s.records := by
  rw [toList_encode]
  unfold firstTag
  simp only [List.append_assoc, List.cons_append, List.nil_append]

theorem firstTag_eq (s : Snapshot) : firstTag s = '<' :: '?' :: (declaration ++ '>' ::
    (indent 0 ++ '<' :: (spreadsheet ++ attributes s.version))) ++ ['>'] := by
  unfold firstTag
  simp only [List.append_assoc, List.cons_append]

theorem gives_initial_text {text : List Char} (h : '<' ∉ text) : Gives [] .initial text none :=
  gives_of_reads (t := .initial) (reads_end h []) fun document => run_outside document _ rfl

theorem gives_initial_bare {text : List Char} (h : '<' ∉ text) :
    Gives [] .initial (text ++ ['<']) none :=
  gives_of_reads (t := .initial) (reads_bare h []) fun document => run_outside document _ rfl

theorem gives_declaration {rest : List Char} {result : Option Snapshot}
    (h : Gives [] .initial rest result) :
    Gives [] .initial ('<' :: '?' :: (declaration ++ '>' :: rest)) result := by
  have hpiece : piece [] ('?' :: declaration ++ '>' :: rest) =
      .ok ⟨.aside, declaration.length + 2⟩ := piece_declaration [] rest
  have hgives : Gives [] .initial ([] ++ '<' :: ('?' :: declaration ++ '>' :: rest)) result := by
    refine gives_piece List.not_mem_nil (by simp) hpiece (fun _ => rfl) (fun _ => rfl) ?_
    have hdrop := drop_mark ('?' :: declaration) '>' rest
    rw [List.length_cons] at hdrop
    rw [hdrop]
    exact h
  exact hgives

theorem gives_declaration_cut {q : List Char} (h : q <+: declaration) :
    Gives [] .initial ('<' :: '?' :: q) none := by
  have hcontent : q.takeWhile (· ≠ '>') = q := List.takeWhile_eq_self_iff.2 fun c hc => by
    have hclear : ∀ c ∈ declaration, c ≠ '>' := Text.forall_mem_of_all (by decide)
    exact decide_eq_true (hclear c (h.subset hc))
  by_cases hwhole : 2 ≤ q.length ∧ q.getLast? = some '?'
  · have hpiece : piece [] ('?' :: q) = .ok ⟨.aside, q.length + 2⟩ := by
      change instruction q = _
      unfold instruction
      dsimp only
      rw [hcontent, if_pos hwhole]
    have hgives : Gives [] .initial ([] ++ '<' :: '?' :: q) none := by
      refine gives_piece List.not_mem_nil (by simp) hpiece (fun _ => rfl) (fun _ => rfl) ?_
      rw [List.drop_eq_nil_of_le (by simp)]
      exact gives_initial_text List.not_mem_nil
    exact hgives
  · have hpiece : piece [] ('?' :: q) = .error (.unfinished .instruction) := by
      change instruction q = _
      unfold instruction
      dsimp only
      rw [hcontent, if_neg hwhole]
    have hgives : Gives [] .initial ([] ++ '<' :: '?' :: q) none :=
      gives_fault List.not_mem_nil (by simp) hpiece
    exact hgives

theorem gives_spreadsheet {version : String} {rest : List Char} {result : Option Snapshot}
    (h : Gives [spreadsheet] (between version []) rest result) :
    Gives [] .initial (indent 0 ++ '<' :: (spreadsheet ++ attributes version ++ '>' :: rest))
      result := by
  refine gives_piece (not_mem_indent 0) (by simp) (piece_spreadsheet version [] rest)
    (fun document => run_outside document _ rfl) (fun document => step_spreadsheet document _ _) ?_
  rw [drop_mark]
  exact h

theorem gives_spreadsheet_cut {version : String} {p : List Char}
    (h : p <+: indent 0 ++ '<' :: (spreadsheet ++ attributes version)) :
    Gives [] .initial p none := by
  rcases prefix_append_cases h with hp | ⟨q, hq, rfl⟩
  · exact gives_initial_text fun hmem => not_mem_indent 0 (hp.subset hmem)
  rcases List.prefix_cons_iff.1 hq with rfl | ⟨r, rfl, hr⟩
  · rw [List.append_nil]
    exact gives_initial_text (not_mem_indent 0)
  by_cases hne : r = []
  · rw [hne]
    exact gives_initial_bare (not_mem_indent 0)
  · exact gives_fault (not_mem_indent 0) hne (piece_open_cut (spreadsheet_exists_cons version)
      (tagLength?_spreadsheet version []) hr hne [])

theorem gives_firstTag (s : Snapshot) {p : List Char} {result : Option Snapshot}
    (h : Gives [spreadsheet] (between s.version []) p result) :
    Gives [] .initial (firstTag s ++ p) result := by
  have hgives := gives_declaration (gives_spreadsheet h)
  unfold firstTag
  simpa only [List.append_assoc, List.cons_append, List.nil_append] using hgives

theorem gives_firstTag_cut (s : Snapshot) {p : List Char} (hp : p <+: firstTag s)
    (hne : p ≠ firstTag s) : Gives [] .initial p none := by
  rw [firstTag_eq] at hp hne
  have hcut : p <+: '<' :: '?' :: (declaration ++ '>' :: (indent 0 ++ '<' ::
      (spreadsheet ++ attributes s.version))) := (List.prefix_concat_iff.1 hp).resolve_left hne
  rcases List.prefix_cons_iff.1 hcut with rfl | ⟨q, rfl, hq⟩
  · exact gives_initial_text List.not_mem_nil
  rcases List.prefix_cons_iff.1 hq with rfl | ⟨q, rfl, hinside⟩
  · exact gives_initial_bare List.not_mem_nil
  rcases prefix_append_cases hinside with hdeclaration | ⟨tail, htail, rfl⟩
  · exact gives_declaration_cut hdeclaration
  rcases List.prefix_cons_iff.1 htail with rfl | ⟨rest, rfl, hrest⟩
  · rw [List.append_nil]
    exact gives_declaration_cut List.prefix_rfl
  · exact gives_declaration (gives_spreadsheet_cut hrest)

/-- What a snapshot whose text was cut off is read as. -/
def restOf (s : Snapshot) (text : List Char) : Option Snapshot :=
  if firstTag s <+: text ∧ ¬Torn text then
    some { s with records := (s.records.map trimName).take (closedCells text) }
  else none

theorem closedCells_firstTag (s : Snapshot) (p : List Char) :
    closedCells (firstTag s ++ p) = closedCells p := by
  have hattributes : '<' ∉ spreadsheet ++ attributes s.version ++ ['>'] := by
    have hescape : '<' ∉ escape s.version.toList := not_mem_escape (by decide) _
    unfold attributes
    simp only [List.mem_append, List.mem_cons, List.not_mem_nil, or_false, not_or]
    exact ⟨⟨by decide, by decide, by decide, hescape, by decide⟩, by decide⟩
  have hfront : '<' ∉ '?' :: (declaration ++ '>' :: indent 0) := by decide
  have hsplit : firstTag s ++ p = '<' :: ('?' :: (declaration ++ '>' :: indent 0) ++
      '<' :: (spreadsheet ++ attributes s.version ++ ['>'] ++ p)) := by
    unfold firstTag
    simp only [List.append_assoc, List.cons_append, List.nil_append]
  have hfirst : ∃ c cs, spreadsheet ++ attributes s.version ++ ['>'] = c :: cs ∧ c ≠ '/' := by
    obtain ⟨c, cs, hcons, hc⟩ := spreadsheet_exists_cons s.version
    rw [hcons]
    refine ⟨c, cs ++ ['>'], rfl, ?_⟩
    rintro rfl
    cases hc
  rw [hsplit, closedCells_tag ⟨'?', _, rfl, by decide⟩ hfront, closedCells_tag hfirst hattributes]

theorem restOf_firstTag (s : Snapshot) (p : List Char) : restOf s (firstTag s ++ p) =
    if Torn p then none
    else some { s with records := (s.records.map trimName).take (closedCells p) } := by
  have htorn : Torn (firstTag s ++ p) ↔ Torn p := by
    rw [firstTag_eq, List.append_assoc, List.singleton_append, torn_append _ (.inr rfl)]
    rfl
  unfold restOf
  simp only [List.prefix_append, true_and, htorn, closedCells_firstTag, ite_not]

theorem gives_cut (s : Snapshot) {p : List Char} (h : p <+: (encode s).toList) :
    Gives [] .initial p (restOf s p) := by
  rw [toList_encode_eq] at h
  by_cases hfirst : firstTag s <+: p
  · obtain ⟨q, rfl⟩ := hfirst
    rw [restOf_firstTag]
    exact gives_firstTag s
      (cuts_records s.version [] s.records q ((List.prefix_append_right_inj _).1 h))
  · unfold restOf
    rw [if_neg fun hwhole => hfirst hwhole.1]
    rcases prefix_append_cases h with hp | ⟨q, -, rfl⟩
    · exact gives_firstTag_cut s hp fun he => hfirst (he ▸ List.prefix_rfl)
    · exact absurd (List.prefix_append _ _) hfirst

theorem toOption_decode_cut (s : Snapshot) {text : String}
    (h : text.toList <+: (encode s).toList) : (decode text).toOption = restOf s text.toList := by
  have hread : Markup.read text.toList = readFrom 0 [] text.toList := by
    rw [toList_encode] at h
    rcases List.prefix_cons_iff.1 h with hnil | ⟨q, hq, -⟩
    · rw [hnil]
      rfl
    · rw [hq]
      rfl
  rw [decode_eq_outcome, hread]
  exact gives_cut s h _ 0

/-- What is left of a snapshot whose text was cut off is an error exactly if the first tag is cut or the
text is torn. Otherwise it is a snapshot with the records of which the cell ends in it. -/
theorem decode_cut (s : Snapshot) {text : String} (h : text.toList <+: (encode s).toList) :
    ((∃ e, decode text = .error e) ↔ (firstTag s <+: text.toList → Torn text.toList)) ∧
      ∀ t, decode text = .ok t →
        t = { s with records := (s.records.map trimName).take (closedCells text.toList) } := by
  have hresult := toOption_decode_cut s h
  unfold restOf at hresult
  by_cases hwhole : firstTag s <+: text.toList ∧ ¬Torn text.toList
  · rw [if_pos hwhole] at hresult
    cases ht : decode text with
    | error e =>
      rw [ht] at hresult
      cases hresult
    | ok t =>
      rw [ht] at hresult
      refine ⟨iff_of_false nofun fun hcut => hwhole.2 (hcut hwhole.1), fun u he => ?_⟩
      obtain rfl := Except.ok.inj he
      exact Option.some.inj hresult
  · rw [if_neg hwhole] at hresult
    cases ht : decode text with
    | error e =>
      refine ⟨iff_of_true ⟨e, rfl⟩ fun hfirst => ?_, nofun⟩
      exact Decidable.not_not.1 fun htorn => hwhole ⟨hfirst, htorn⟩
    | ok t =>
      rw [ht] at hresult
      cases hresult

theorem decode_cut_in_tag :
    let s : Snapshot := ⟨"default", [⟨"A1", "1"⟩]⟩
    let text := "<?xml version=\"1.0\" encoding=\"utf-8\"?>\n" ++
      "<spreadsheet version=\"default\">\n  <cell>\n    <na"
    text.toList <+: (encode s).toList ∧ ∃ e, decode text = .error e := by
  intro s text
  let rest := "\n  <cell>\n    <na".toList
  have htext : text.toList = firstTag s ++ rest := by decide +kernel
  have hcut : text.toList <+: (encode s).toList := by
    have hrest : rest <+: recordsText s.records := by decide +kernel
    rw [htext, toList_encode_eq]
    exact (List.prefix_append_right_inj _).2 hrest
  have htorn : Torn text.toList := by
    rw [htext]
    decide +kernel
  exact ⟨hcut, (decode_cut s hcut).1.2 fun _ => htorn⟩

/-- The second cell is cut in its contents, and what is left is read as a sheet of the first. -/
theorem decode_cut_loses_record :
    let s : Snapshot := ⟨"default", [⟨"A1", "1"⟩, ⟨"B1", "2"⟩]⟩
    let text := "<?xml version=\"1.0\" encoding=\"utf-8\"?>\n" ++
      "<spreadsheet version=\"default\">" ++
      "\n  <cell>\n    <name>A1</name>\n    <contents>1</contents>\n  </cell>" ++
      "\n  <cell>\n    <name>B1</name>\n    <contents>2"
    encode s = text ++ "</contents>\n  </cell>\n</spreadsheet>\n" ∧
      decode text = .ok ⟨"default", [⟨"A1", "1"⟩]⟩ := by
  intro s text
  let rest := "\n  <cell>\n    <name>A1</name>\n    <contents>1</contents>\n  </cell>".toList ++
    "\n  <cell>\n    <name>B1</name>\n    <contents>2".toList
  have htext : text.toList = firstTag s ++ rest := by
    have hfirst : "<?xml version=\"1.0\" encoding=\"utf-8\"?>\n".toList ++
        "<spreadsheet version=\"default\">".toList = firstTag s := by decide
    rw [String.toList_append, String.toList_append, String.toList_append, hfirst, List.append_assoc]
  have hwhole : (encode s).toList =
      text.toList ++ "</contents>\n  </cell>\n</spreadsheet>\n".toList := by
    have hrest : recordsText s.records =
        rest ++ "</contents>\n  </cell>\n</spreadsheet>\n".toList := by decide +kernel
    rw [htext, toList_encode_eq, hrest, ← List.append_assoc]
  have hcut : text.toList <+: (encode s).toList := ⟨_, hwhole.symm⟩
  have hresult := toOption_decode_cut s hcut
  have htorn : ¬Torn rest := by decide +kernel
  have hcells : closedCells rest = 1 := by decide +kernel
  rw [htext, restOf_firstTag, if_neg htorn, hcells] at hresult
  constructor
  · rw [← String.toList_inj, String.toList_append, hwhole]
  · have hkept : (s.records.map trimName).take 1 = [⟨"A1", "1"⟩] := by decide
    rw [hkept] at hresult
    cases hdecode : decode text with
    | error e =>
      rw [hdecode] at hresult
      cases hresult
    | ok t =>
      rw [hdecode] at hresult
      exact congrArg Except.ok (Option.some.inj hresult)

end document

end Worksheet.Xml
