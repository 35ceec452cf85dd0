import Worksheet.File.Memory

set_option autoImplicit false

/-!
# Written files

What is written to a file is read from it again, and all other paths lead to what they led to before.
-/
namespace Worksheet

def FileTree.textAt (found : Except FileError FileEntry) : Except FileError String :=
  match found with
  | .error e => .error e
  | .ok .folder => .error .isFolder
  | .ok (.file bytes) =>
    match String.fromUTF8? bytes with
    | some text => .ok text
    | none => .error .notText

def FileTree.infoOf (found : Except FileError FileEntry) : Except FileError FileInfo :=
  match found with
  | .error e => .error e
  | .ok (.file bytes) => .ok ⟨true, bytes.size⟩
  | .ok .folder => .ok ⟨false, 0⟩

namespace FileTree

theorem fromUTF8?_toUTF8 (text : String) : String.fromUTF8? text.toUTF8 = some text := by
  unfold String.fromUTF8?
  rw [String.toUTF8_eq_toByteArray, dif_pos text.isValidUTF8]
  rfl

section insertion

variable {t : FileTree} {place : Place} (bytes : ByteArray)

theorem entry?_insert {other : Place} (h : other ≠ place) :
    entry? (t.insert place (.file bytes)) other = t.entry? other := by
  unfold entry? insert
  rw [Table.get?_insert, if_neg h]

theorem entry?_insert_self (h : t.entry? place ≠ some .folder) :
    entry? (t.insert place (.file bytes)) place = some (.file bytes) := by
  unfold entry? at h ⊢
  split
  · rename_i hnil
    exact absurd (if_pos hnil) h
  · unfold insert
    rw [Table.get?_insert, if_pos rfl]

/-- A path only runs through folders, so a file put where no folder is does not change where it leads. -/
theorem follow_insert (h : t.entry? place ≠ some .folder) (parts : List (List Char)) (start : Place) :
    ((t.insert place (.file bytes)).follow start parts).toOption =
      (t.follow start parts).toOption := by
  induction parts generalizing start with
  | nil => rfl
  | cons part parts ih =>
    unfold follow
    by_cases hstart : start = place
    · subst hstart
      rw [entry?_insert_self bytes h]
      cases hentry : t.entry? start with
      | none => rfl
      | some entry =>
        cases entry with
        | file _ => rfl
        | folder => exact absurd hentry h
    · rw [entry?_insert bytes hstart]
      cases hentry : t.entry? start with
      | none => rfl
      | some entry =>
        cases entry with
        | file _ => rfl
        | folder =>
          dsimp only
          split
          · exact ih start
          split
          · exact ih _
          split
          · rfl
          · exact ih _

theorem place_insert (h : t.entry? place ≠ some .folder) (path : String) :
    ((t.insert place (.file bytes)).place path).toOption = (t.place path).toOption := by
  unfold FileTree.place
  split
  · rfl
  split
  · rfl
  · exact follow_insert bytes h _ _

theorem find_insert_self (h : t.entry? place ≠ some .folder) {path : String}
    (hpath : t.place path = .ok place) :
    (t.insert place (.file bytes)).find path = .ok (.file bytes) := by
  have hplace := place_insert bytes h path
  rw [hpath] at hplace
  unfold find
  cases hp : (t.insert place (.file bytes)).place path with
  | error e =>
    rw [hp] at hplace
    cases hplace
  | ok p =>
    rw [hp] at hplace
    obtain rfl := Option.some.inj hplace
    dsimp only
    rw [entry?_insert_self bytes h]

theorem find_insert (h : t.entry? place ≠ some .folder) {path : String}
    (hpath : t.place path ≠ .ok place) :
    ((t.insert place (.file bytes)).find path).toOption = (t.find path).toOption := by
  have hplace := place_insert bytes h path
  unfold find
  cases hp : (t.insert place (.file bytes)).place path with
  | error e =>
    rw [hp] at hplace
    cases hq : t.place path with
    | error e' => rfl
    | ok q =>
      rw [hq] at hplace
      cases hplace
  | ok p =>
    rw [hp] at hplace
    cases hq : t.place path with
    | error e' =>
      rw [hq] at hplace
      cases hplace
    | ok q =>
      rw [hq] at hplace hpath
      obtain rfl := Option.some.inj hplace
      dsimp only
      rw [entry?_insert bytes fun he => hpath (congrArg _ he)]

end insertion

theorem write_eq_ok {t t' : FileTree} {path : String} {bytes : ByteArray}
    (h : t.write path bytes = .ok t') : ∃ place, t.place path = .ok place ∧
      t.entry? place ≠ some .folder ∧ t' = t.insert place (.file bytes) := by
  unfold write at h
  generalize hname : (path.toList.reverse.dropWhile (· == '/')).reverse = name at h
  dsimp only at h
  have whole (hlength : ¬name.length < path.length) : String.ofList name = path := by
    have hsuffix : name.reverse <:+ path.toList.reverse := by
      rw [← hname, List.reverse_reverse]
      exact List.dropWhile_suffix _
    have hsame := hsuffix.eq_of_length_le (by
      rw [List.length_reverse, List.length_reverse, String.length_toList]
      omega)
    rw [List.reverse_inj.1 hsame, String.ofList_toList]
  split at h
  · cases h
  · rename_i place hplace
    split at h
    · cases h
    · rename_i hlength
      rw [whole hlength, ite_self] at hplace
      split at h
      · cases h
      · rename_i hentry
        exact ⟨place, hplace, hentry, (Except.ok.inj h).symm⟩

/-- A file that was written is found as it was written, and nothing else was touched. -/
structure Written (t t' : FileTree) (path : String) (bytes : ByteArray) : Prop where
  self : t'.find path = .ok (.file bytes)
  other : ∀ other, t.place other ≠ t.place path →
    (t'.find other).toOption = (t.find other).toOption

theorem written_of_write {t t' : FileTree} {path : String} {bytes : ByteArray}
    (h : t.write path bytes = .ok t') : Written t t' path bytes := by
  obtain ⟨place, hplace, hentry, rfl⟩ := write_eq_ok h
  refine ⟨find_insert_self bytes hentry hplace, fun other hother => ?_⟩
  rw [hplace] at hother
  exact find_insert bytes hentry hother

section disk

theorem run_bind {σ α β : Type} {x : StateM σ α} {s s' : σ} {a : α} (h : x.run s = (a, s'))
    (f : α → StateM σ β) : (x >>= f).run s = (f a).run s' := by
  rw [StateT.run_bind, h]
  rfl

theorem info_disk (t : FileTree) (path : String) :
    (disk.info path).run t = (infoOf (t.find path), t) := by
  change (t.info path, t) = _
  unfold info infoOf
  cases t.find path with
  | error _ => rfl
  | ok entry => cases entry with
    | file _ => rfl
    | folder => rfl

theorem readText_disk (t : FileTree) (path : String) :
    (disk.readText path).run t = (textAt (t.find path), t) := by
  have hread : (disk.read path).run t = (t.read path, t) := rfl
  unfold Disk.readText
  rw [run_bind hread]
  unfold read textAt
  cases t.find path with
  | error _ => rfl
  | ok entry => cases entry with
    | folder => rfl
    | file bytes =>
      dsimp only
      cases String.fromUTF8? bytes with
      | none => rfl
      | some _ => rfl

theorem contains_disk (t : FileTree) (path : String) :
    (disk.contains path).run t = ((t.find path).toOption.isSome, t) := by
  unfold Disk.contains
  rw [run_bind (info_disk t path)]
  cases t.find path with
  | error _ => rfl
  | ok entry => cases entry with
    | file _ => rfl
    | folder => rfl

def isFile (entry : FileEntry) : Bool :=
  match entry with
  | .file _ => true
  | .folder => false

theorem containsFile_disk (t : FileTree) (path : String) :
    (disk.containsFile path).run t = ((t.find path).toOption.any isFile, t) := by
  unfold Disk.containsFile
  rw [run_bind (info_disk t path)]
  cases t.find path with
  | error _ => rfl
  | ok entry => cases entry with
    | file _ => rfl
    | folder => rfl

theorem write_disk (t : FileTree) (path text : String) :
    (disk.write path text).run t =
      match t.write path text.toUTF8 with
      | .ok t' => (.ok (), t')
      | .error e => (.error e, t) := by
  have hget : (get : StateM FileTree FileTree).run t = (t, t) := rfl
  unfold disk
  dsimp only
  rw [run_bind hget]
  cases t.write path text.toUTF8 with
  | error _ => rfl
  | ok _ => rfl

end disk

end FileTree
end Worksheet
