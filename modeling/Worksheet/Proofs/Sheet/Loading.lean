import Worksheet.Proofs.Sheet.Reopening

set_option autoImplicit false

/-!
# Loading in any order

Whether a snapshot loads, and as which sheet, does not depend on the order of its records, as long as
each is for a cell of its own. On the way every order meets other edges and other values, but the
contents at the end are the same, and they decide the rest.
-/
namespace Worksheet.Sheet
open Relation

/-- A record has a name that a cell can have, and its contents are no broken formula. -/
def Readable (rules : Rules) (r : Record) : Prop :=
  (∃ n, (new rules).cellName r.name = .ok n) ∧
    ∃ c, Content.classify rules.naming r.contents = .ok c

/-- One of the records holds a formula for the cell `n` that names `v`. -/
def RecordNames (rules : Rules) (records : List Record) (v n : String) : Prop :=
  ∃ r ∈ records, rules.normalize r.name = n ∧
    ∃ f, Content.classify rules.naming r.contents = .ok (.formula f) ∧ v ∈ f.vars

def cellsOf (rules : Rules) (records : List Record) : List String :=
  records.map fun r => rules.normalize r.name

/-- What the first record for a cell puts there, and nothing where there is none. -/
def contentsOf (rules : Rules) : List Record → String → Content
  | [], _ => .empty
  | r :: records, n =>
    if rules.normalize r.name = n then
      match Content.classify rules.naming r.contents with
      | .ok c => c
      | .error _ => .empty
    else contentsOf rules records n

section records

variable {rules : Rules} {records : List Record}

theorem Readable.cellName {r : Record} (h : Readable rules r) :
    (new rules).cellName r.name = .ok (rules.normalize r.name) := by
  obtain ⟨n, hn⟩ := h.1
  obtain ⟨rfl, -⟩ := cellName_eq_ok.1 hn
  exact hn

theorem ne_of_mem_cellsOf {r r' : Record} (hfresh : rules.normalize r'.name ∉ cellsOf rules records)
    (hr : r ∈ records) : rules.normalize r.name ≠ rules.normalize r'.name :=
  fun he => hfresh (List.mem_map.2 ⟨r, hr, he⟩)

theorem cellsOf_perm (rules : Rules) {records' : List Record} (h : records'.Perm records) :
    (cellsOf rules records').Perm (cellsOf rules records) :=
  h.map fun r : Record => rules.normalize r.name

theorem describes_contentsOf (h : ∀ r ∈ records, Readable rules r)
    (hcells : (cellsOf rules records).Nodup) :
    ∀ r ∈ records, Describes rules (contentsOf rules records) r := by
  intro r hr
  refine ⟨(h r hr).cellName, ?_⟩
  induction records with
  | nil => cases hr
  | cons r' records ih =>
    obtain ⟨hfresh, hcells⟩ := List.nodup_cons.1 hcells
    rcases List.mem_cons.1 hr with rfl | hr
    · obtain ⟨-, c, hc⟩ := h r List.mem_cons_self
      simp only [contentsOf, ↓reduceIte, hc]
    · have hne := (ne_of_mem_cellsOf hfresh hr).symm
      have hrest := ih (fun r hr => h r (List.mem_cons_of_mem r' hr)) hcells hr
      simpa only [contentsOf, if_neg hne] using hrest

theorem recordNames_of_names {v n : String} (h : Names (contentsOf rules records) v n) :
    RecordNames rules records v n := by
  unfold Names at h
  induction records with
  | nil => cases h
  | cons r records ih =>
    rw [contentsOf] at h
    by_cases hn : rules.normalize r.name = n
    · rw [if_pos hn] at h
      refine ⟨r, List.mem_cons_self, hn, ?_⟩
      cases hc : Content.classify rules.naming r.contents with
      | error _ =>
        rw [hc] at h
        cases h
      | ok c =>
        rw [hc] at h
        cases c with
        | formula f => exact ⟨f, rfl, h⟩
        | number _ | text _ => cases h
    · rw [if_neg hn] at h
      obtain ⟨r', hr', hnames⟩ := ih h
      exact ⟨r', List.mem_cons_of_mem r hr', hnames⟩

theorem names_of_recordNames {contents : String → Content}
    (h : ∀ r ∈ records, Describes rules contents r) {v n : String}
    (hv : RecordNames rules records v n) : Names contents v n := by
  obtain ⟨r, hr, rfl, f, hf, hv⟩ := hv
  have hcontent := Except.ok.inj ((h r hr).2.symm.trans hf)
  unfold Names
  rw [hcontent]
  exact hv

end records

section loading

theorem restore_eq_ok {s t : Sheet} {r : Record} (h : s.restore r = .ok t) :
    ∃ order, s.set r.name r.contents = .ok (t, order) := by
  unfold restore at h
  split at h
  · rename_i u order he
    exact ⟨order, he.trans (by rw [Except.ok.inj h])⟩
  · cases h

theorem describes_of_restored {s t : Sheet} {records : List Record}
    (h : records.foldlM restore s = .ok t) (hcells : (cellsOf s.rules records).Nodup) :
    (∀ r ∈ records, Describes s.rules t.contentOf r) ∧
      ∀ n, n ∉ cellsOf s.rules records → t.contentOf n = s.contentOf n := by
  induction records generalizing s with
  | nil =>
    obtain rfl := Except.ok.inj h
    exact ⟨fun r hr => absurd hr List.not_mem_nil, fun _ _ => rfl⟩
  | cons r records ih =>
    rw [List.foldlM_cons] at h
    cases hr : s.restore r with
    | error e =>
      rw [hr] at h
      cases h
    | ok u =>
      rw [hr] at h
      obtain ⟨order, hset⟩ := restore_eq_ok hr
      obtain ⟨n, c, hn, hc, -, hu⟩ := set_eq_ok hset
      obtain ⟨rfl, -⟩ := cellName_eq_ok.1 hn
      have hrules : u.rules = s.rules := by
        rw [hu]
        exact rules_recalculate _ _
      have hcontent (m : String) :
          u.contentOf m = if m = s.rules.normalize r.name then c else s.contentOf m := by
        rw [hu, contentOf_recalculate, contentOf_commit]
      obtain ⟨hfresh, hcells⟩ := List.nodup_cons.1 hcells
      obtain ⟨hdescribes, hkept⟩ := ih h (hrules ▸ hcells)
      rw [hrules] at hdescribes hkept
      refine ⟨fun r' hr' => ?_, fun m hm => ?_⟩
      · rcases List.mem_cons.1 hr' with rfl | hr'
        · refine ⟨hn, ?_⟩
          rw [hkept _ hfresh, hcontent, if_pos rfl]
          exact hc
        · exact hdescribes r' hr'
      · obtain ⟨hne, hm⟩ := List.ne_and_not_mem_of_not_mem_cons hm
        rw [hkept m hm, hcontent, if_neg hne]

theorem ofSnapshot_eq_ok {rules : Rules} {s : Snapshot} (h : s.version = rules.version) {t : Sheet} :
    ofSnapshot rules s = .ok t ↔
      ∃ u, s.records.foldlM restore (new rules) = .ok u ∧ { u with changed := false } = t := by
  unfold ofSnapshot
  rw [if_pos h]
  cases s.records.foldlM restore (new rules) with
  | error e => simp [Except.map]
  | ok u => simp [Except.map]

variable {rules : Rules} {records records' : List Record}

theorem restored_sound {t : Sheet} (h : records.foldlM restore (new rules) = .ok t) :
    t.Sound ∧ t.Tidy := by
  rw [← foldl_attempt_of_restore h]
  exact ⟨afterEdits_sound rules _, afterEdits_tidy rules _⟩

/-- Records for different cells restore to what they describe exactly when that is without a loop. -/
theorem restored_iff (hcells : (cellsOf rules records).Nodup) :
    (∃ t, records.foldlM restore (new rules) = .ok t) ↔
      (∀ r ∈ records, Readable rules r) ∧ ∀ n, ¬TransGen (RecordNames rules records) n n := by
  constructor
  · rintro ⟨t, ht⟩
    obtain ⟨hdescribes, -⟩ := describes_of_restored ht hcells
    refine ⟨fun r hr => ⟨⟨_, (hdescribes r hr).1⟩, _, (hdescribes r hr).2⟩, fun n hn => ?_⟩
    have sound := (restored_sound ht).1
    refine sound.acyclic n ?_
    rw [sound.follows_eq]
    exact hn.lift id fun _ _ => names_of_recordNames hdescribes
  · rintro ⟨hread, hloop⟩
    have acyclic (n : String) : ¬TransGen (Names (contentsOf rules records)) n n := fun hn =>
      hloop n (hn.lift id fun _ _ => recordNames_of_names)
    obtain ⟨t, ht, -⟩ := restore_records acyclic (new_sound rules) (fun _ => .inr rfl)
      (describes_contentsOf hread hcells)
    exact ⟨t, ht⟩

theorem restored_perm (hperm : records'.Perm records) (hcells : (cellsOf rules records).Nodup)
    {t : Sheet} (ht : records.foldlM restore (new rules) = .ok t) :
    ∃ u, records'.foldlM restore (new rules) = .ok u ∧ u.Alike t := by
  obtain ⟨hdescribes, hkept⟩ := describes_of_restored ht hcells
  obtain ⟨sound, tidy⟩ := restored_sound ht
  have acyclic : ∀ n, ¬TransGen (Names t.contentOf) n n := sound.follows_eq ▸ sound.acyclic
  obtain ⟨u, hu, hcontent⟩ := restore_records acyclic (new_sound rules) (fun _ => .inr rfl)
    fun r hr => hdescribes r (hperm.mem_iff.1 hr)
  obtain ⟨sound', tidy'⟩ := restored_sound hu
  refine ⟨u, hu, alike_of_contentOf sound' sound tidy' tidy fun n => (hcontent n).trans ?_⟩
  have same := (cellsOf_perm rules hperm).mem_iff (a := n)
  by_cases hn : n ∈ cellsOf rules records
  · exact if_pos (same.2 hn)
  · exact (if_neg (mt same.1 hn)).trans (hkept n hn).symm

end loading

theorem ofSnapshot_perm {rules : Rules} {s s' : Snapshot} (hversion : s'.version = rules.version)
    (hperm : s'.records.Perm s.records) (hcells : (cellsOf rules s.records).Nodup) {t : Sheet}
    (ht : ofSnapshot rules s = .ok t) :
    ∃ u, ofSnapshot rules s' = .ok u ∧ u.Alike t ∧ u.changed = t.changed := by
  have hversion' : s.version = rules.version := by
    by_contra hne
    unfold ofSnapshot at ht
    rw [if_neg hne] at ht
    cases ht
  obtain ⟨t, hrestored, rfl⟩ := (ofSnapshot_eq_ok hversion').1 ht
  obtain ⟨u, hu, alike⟩ := restored_perm hperm hcells hrestored
  exact ⟨{ u with changed := false }, (ofSnapshot_eq_ok hversion).2 ⟨u, hu, rfl⟩,
    ⟨alike.names, alike.contentOf, alike.valueOf, alike.dependents, alike.dependees⟩, rfl⟩

/-- A snapshot with records for different cells loads exactly when all its records are readable and its
formulas name each other without a loop. Then it loads in every order of the records, as the same sheet,
and otherwise in none. -/
theorem ofSnapshot_any_order (rules : Rules) {s : Snapshot} (hversion : s.version = rules.version)
    (hcells : (cellsOf rules s.records).Nodup) :
    ((∃ t, ofSnapshot rules s = .ok t) ↔
      (∀ r ∈ s.records, Readable rules r) ∧ ∀ n, ¬TransGen (RecordNames rules s.records) n n) ∧
    ∀ records, records.Perm s.records →
      (∀ t, ofSnapshot rules s = .ok t →
        ∃ u, ofSnapshot rules { s with records } = .ok u ∧ u.Alike t ∧ u.changed = t.changed) ∧
      ∀ e, ofSnapshot rules s = .error e →
        ∃ e', ofSnapshot rules { s with records } = .error e' := by
  refine ⟨?_, fun records hperm => ⟨fun t => ofSnapshot_perm ?_ ?_ hcells, fun e he => ?_⟩⟩
  · rw [← restored_iff hcells]
    simp only [ofSnapshot_eq_ok hversion]
    constructor
    · rintro ⟨_, u, hu, -⟩
      exact ⟨u, hu⟩
    · rintro ⟨u, hu⟩
      exact ⟨_, u, hu, rfl⟩
  · exact hversion
  · exact hperm
  · cases ht : ofSnapshot rules { s with records } with
    | error e' => exact ⟨e', rfl⟩
    | ok t =>
      have hcells' : (cellsOf rules records).Nodup := (cellsOf_perm rules hperm).nodup_iff.2 hcells
      obtain ⟨u, hu, -⟩ := ofSnapshot_perm hversion hperm.symm hcells' ht
      cases he.symm.trans hu

theorem ofSnapshot_forward_reference : (cellsOf .standard [⟨"B1", "=A1"⟩, ⟨"A1", "x"⟩]).Nodup ∧
    ∃ t, ofSnapshot .standard ⟨"default", [⟨"B1", "=A1"⟩, ⟨"A1", "x"⟩]⟩ = .ok t ∧
      ∃ u, ofSnapshot .standard ⟨"default", [⟨"A1", "x"⟩, ⟨"B1", "=A1"⟩]⟩ = .ok u ∧
        u.Alike t ∧ u.changed = t.changed := by
  have names_A1 : Content.classify Rules.standard.naming "=A1" =
      .ok (.formula ⟨[.var "A1"], "A1"⟩) := Content.classify_var "A1" (by decide) rfl (by decide)
  have text_x : Content.classify Rules.standard.naming "x" = .ok (.text "x") := rfl
  have cells : (cellsOf .standard [⟨"B1", "=A1"⟩, ⟨"A1", "x"⟩]).Nodup := by decide
  obtain ⟨loads, orders⟩ :=
    ofSnapshot_any_order .standard (s := ⟨"default", [⟨"B1", "=A1"⟩, ⟨"A1", "x"⟩]⟩) rfl cells
  have edge {v n : String}
      (h : RecordNames .standard [⟨"B1", "=A1"⟩, ⟨"A1", "x"⟩] v n) : v = "A1" ∧ n = "B1" := by
    obtain ⟨r, hr, rfl, f, hf, hv⟩ := h
    simp only [List.mem_cons, List.not_mem_nil, or_false] at hr
    rcases hr with rfl | rfl
    · obtain rfl := Content.formula.inj (Except.ok.inj (names_A1.symm.trans hf))
      exact ⟨List.mem_singleton.1 hv, rfl⟩
    · cases text_x.symm.trans hf
  have readable : ∀ r ∈ [(⟨"B1", "=A1"⟩ : Record), ⟨"A1", "x"⟩], Readable .standard r := by
    intro r hr
    simp only [List.mem_cons, List.not_mem_nil, or_false] at hr
    rcases hr with rfl | rfl
    · exact ⟨⟨"B1", by decide⟩, _, names_A1⟩
    · exact ⟨⟨"A1", by decide⟩, _, text_x⟩
  have acyclic (n : String) :
      ¬TransGen (RecordNames .standard [⟨"B1", "=A1"⟩, ⟨"A1", "x"⟩]) n n := by
    intro hn
    obtain ⟨v, -, hvn⟩ := TransGen.tail'_iff.1 hn
    obtain ⟨m, hnm, -⟩ := TransGen.head'_iff.1 hn
    have same := (edge hvn).2.symm.trans (edge hnm).1
    exact absurd same (by decide)
  obtain ⟨t, ht⟩ := loads.2 ⟨readable, acyclic⟩
  exact ⟨cells, t, ht, (orders _ (.swap _ _ _)).1 t ht⟩

end Worksheet.Sheet
