import Worksheet.Proofs.Cell.Name
import Worksheet.Proofs.Snapshot.Lines
import Worksheet.Proofs.Snapshot.Xml
import Worksheet.Snapshot.Format

set_option autoImplicit false

/-!
# Snapshots of cells

A snapshot whose records have the names of cells is read back as it was in both formats.
-/
namespace Worksheet

theorem Cell.nameFits {name : String} (h : isCellName name = true) :
    Lines.NameFits name.toList := by
  obtain ⟨c, cs, hname, halpha⟩ := exists_cons h
  have hcode := (Text.isAlpha_iff c).1 halpha
  have first {d : Char} (hd : d.toNat < 65) : c ≠ d := by
    rintro rfl
    omega
  refine ⟨?_, trimList_toList h, not_mem_toList h (by decide), not_mem_toList h (by decide), ?_, ?_⟩
  · rw [hname]
    exact List.cons_ne_nil c cs
  · rw [hname, List.head?_cons]
    exact fun he => first (by decide) (Option.some.inj he)
  · rw [hname]
    exact fun he => first (by decide) (List.cons.inj he).1

theorem Xml.trimName_eq_self {r : Record} (h : Cell.isCellName r.name = true) :
    trimName r = r := by
  rw [trimName_eq_self_iff, Text.trim, Cell.trimList_toList h, String.ofList_toList]

namespace FileFormat

variable {s : Snapshot} (h : ∀ r ∈ s.records, Cell.isCellName r.name = true)
include h

theorem decode_encode_of_cells (format : FileFormat) :
    format.decode (format.encode s) = .ok s := by
  cases format with
  | lines => exact Lines.decode_encode fun r hr => Cell.nameFits (h r hr)
  | xml =>
    have same : s.records.map Xml.trimName = s.records := by
      rw [List.map_congr_left fun r hr => Xml.trimName_eq_self (h r hr), List.map_id']
    refine (Xml.decode_encode s).trans ?_
    rw [same]

theorem decodeVersion_encode_of_cells (format : FileFormat) :
    format.decodeVersion (format.encode s) = .ok s.version := by
  cases format with
  | lines => exact Lines.decodeVersion_encode fun r hr => Cell.nameFits (h r hr)
  | xml => exact Xml.decodeVersion_encode s

end FileFormat
end Worksheet
