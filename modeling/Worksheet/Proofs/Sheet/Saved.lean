import Worksheet.Proofs.File.Memory
import Worksheet.Sheet.Saved

set_option autoImplicit false

/-!
# Sheets in files

What loading, saving and looking up a version come to when the files are in memory.
-/
namespace Worksheet.Sheet
open FileTree (disk run_bind)

variable {t : FileTree} {path : String}

theorem load_disk {text : String} (rules : Rules) (h : FileTree.textAt (t.find path) = .ok text) :
    (load disk path rules).run t = (ofText (.ofPath path) rules text, t) := by
  unfold load
  rw [run_bind (FileTree.readText_disk t path), h]
  rfl

theorem savedVersion_disk {text : String} (h : FileTree.textAt (t.find path) = .ok text) :
    (savedVersion disk path).run t =
      (((FileFormat.ofPath path).decodeVersion text).mapError .decode, t) := by
  unfold savedVersion
  rw [run_bind (FileTree.readText_disk t path), h]
  dsimp only
  cases (FileFormat.ofPath path).decodeVersion text with
  | error _ => rfl
  | ok _ => rfl

theorem save_disk (t : FileTree) (s : Sheet) (path : String) :
    (s.save disk path).run t =
      match t.write path ((FileFormat.ofPath path).encode s.snapshot).toUTF8 with
      | .ok t' => (.ok { s with changed := false }, t')
      | .error e => (.error e, t) := by
  have hwrite := FileTree.write_disk t path ((FileFormat.ofPath path).encode s.snapshot)
  unfold save
  cases h : t.write path ((FileFormat.ofPath path).encode s.snapshot).toUTF8 with
  | error _ =>
    rw [h] at hwrite
    exact run_bind hwrite _
  | ok _ =>
    rw [h] at hwrite
    exact run_bind hwrite _

end Worksheet.Sheet
