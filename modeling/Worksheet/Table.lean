set_option autoImplicit false

/-!
# Tables

Values under distinct keys. A new value takes the place of the old one under its key.
-/
namespace Worksheet

abbrev Table (κ α : Type) := List (κ × α)

namespace Table

variable {κ α : Type} [DecidableEq κ]

def get? (t : Table κ α) (k : κ) : Option α := t.lookup k

def erase (t : Table κ α) (k : κ) : Table κ α := t.filter fun e => decide (e.1 ≠ k)

def insert (t : Table κ α) (k : κ) (v : α) : Table κ α := (k, v) :: t.erase k

def keys (t : Table κ α) : List κ := t.map Prod.fst

theorem get?_cons (e : κ × α) (t : Table κ α) (k : κ) :
    get? (e :: t) k = if k = e.1 then some e.2 else t.get? k := by
  obtain ⟨k', v⟩ := e
  by_cases h : k = k'
  · simp [get?, h]
  · simp [get?, List.lookup_cons, h, beq_eq_false_iff_ne.2 h]

theorem get?_erase (t : Table κ α) (k k' : κ) :
    (t.erase k).get? k' = if k' = k then none else t.get? k' := by
  induction t with
  | nil => simp [erase, get?]
  | cons e t ih =>
    have unfolded : erase (e :: t) k = if e.1 = k then erase t k else e :: erase t k := by
      by_cases h : e.1 = k <;> simp [erase, h]
    rw [unfolded, get?_cons]
    by_cases h : e.1 = k
    · rw [if_pos h, ih]
      by_cases hk : k' = k
      · simp [hk]
      · simp [hk, show k' ≠ e.1 from fun he => hk (he.trans h)]
    · rw [if_neg h, get?_cons, ih]
      by_cases hk : k' = e.1
      · simp [hk, h]
      · simp [hk]

theorem get?_insert (t : Table κ α) (k k' : κ) (v : α) :
    (t.insert k v).get? k' = if k' = k then some v else t.get? k' := by
  rw [insert, get?_cons, get?_erase]
  by_cases h : k' = k <;> simp [h]

theorem mem_keys_iff (t : Table κ α) (k : κ) : k ∈ t.keys ↔ (t.get? k).isSome := by
  induction t with
  | nil => simp [keys, get?]
  | cons e t ih =>
    rw [get?_cons]
    by_cases h : k = e.1
    · simp [keys, h]
    · rw [if_neg h, ← ih]
      simp [keys, h]

theorem nodup_keys_erase {t : Table κ α} (h : t.keys.Nodup) (k : κ) : (t.erase k).keys.Nodup :=
  List.Nodup.sublist ((List.filter_sublist).map Prod.fst) h

theorem nodup_keys_insert {t : Table κ α} (h : t.keys.Nodup) (k : κ) (v : α) :
    (t.insert k v).keys.Nodup := by
  refine List.nodup_cons.2 ⟨?_, nodup_keys_erase h k⟩
  change k ∉ (t.erase k).keys
  rw [mem_keys_iff, get?_erase]
  simp

end Table
end Worksheet
