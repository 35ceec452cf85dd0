import Worksheet.Batch.Run
import Worksheet.Proofs.Batch.Arguments
import Worksheet.Proofs.Sheet.Agreement
import Worksheet.Proofs.Sheet.Saved

set_option autoImplicit false

/-!
# Resumed batches

A batch of assignments can be stopped by saving the sheet and taken up again by opening it. What is
listed at the end, and the exit code, are those of one run with all the assignments.
-/
namespace Worksheet.Batch
open FileTree (disk run_bind)
open Sheet (Agree)

/-- What a run shows of itself on its output and by its exit code. -/
structure Outcome.Same (o o' : Outcome) : Prop where
  code : o.code = o'.code
  output : o.output = o'.output

section assigning

theorem assign_of_accepts {s : Sheet} {a : Assignment} (h : s.Accepts (a.name, a.contents)) :
    assign s a = .ok (s.attempt (a.name, a.contents)) := by
  obtain ⟨t, order, he⟩ := h
  rw [Sheet.attempt_eq]
  unfold assign
  rw [he]

theorem assign_of_not_accepts {s : Sheet} {a : Assignment} (h : ¬s.Accepts (a.name, a.contents)) :
    ∃ failure, assign s a = .error failure := by
  unfold assign
  cases he : s.set a.name a.contents with
  | error e => exact ⟨_, rfl⟩
  | ok result => exact absurd ⟨result.1, result.2, he⟩ h

theorem assigned_agree {s t : Sheet} (h : Agree s t) (assignments : List Assignment) :
    (∃ s' t', assignments.foldlM assign s = .ok s' ∧ assignments.foldlM assign t = .ok t' ∧
      Agree s' t') ∨
    ∃ failure failure', assignments.foldlM assign s = .error failure ∧
      assignments.foldlM assign t = .error failure' := by
  induction assignments generalizing s t with
  | nil => exact .inl ⟨s, t, rfl, rfl, h⟩
  | cons a assignments ih =>
    rw [List.foldlM_cons, List.foldlM_cons]
    by_cases ha : s.Accepts (a.name, a.contents)
    · rw [assign_of_accepts ha, assign_of_accepts ((h.accepts_iff _).1 ha)]
      exact ih (h.attempt _)
    · obtain ⟨failure, hf⟩ := assign_of_not_accepts ha
      obtain ⟨failure', hf'⟩ := assign_of_not_accepts (mt (h.accepts_iff _).2 ha)
      rw [hf, hf']
      exact .inr ⟨failure, failure', rfl, rfl⟩

theorem agree_new (rules : Rules) : Agree (.new rules) (.new rules) :=
  ⟨Sheet.new_sound rules, Sheet.new_sound rules, Sheet.new_tidy rules, Sheet.new_tidy rules, rfl,
    fun _ => rfl⟩

theorem agree_assigned {rules : Rules} {assignments : List Assignment} {s : Sheet}
    (h : assignments.foldlM assign (.new rules) = .ok s) : Agree s s := by
  rcases assigned_agree (agree_new rules) assignments with ⟨s', t', hs', ht', agree⟩ | ⟨_, _, hf, -⟩
  · obtain rfl := Except.ok.inj (hs'.symm.trans h)
    obtain rfl := Except.ok.inj (ht'.symm.trans h)
    exact agree
  · cases hf.symm.trans h

theorem rules_assigned {assignments : List Assignment} {s t : Sheet}
    (h : assignments.foldlM assign s = .ok t) : t.rules = s.rules := by
  induction assignments generalizing s with
  | nil => exact congrArg Sheet.rules (Except.ok.inj h).symm
  | cons a assignments ih =>
    rw [List.foldlM_cons] at h
    by_cases ha : s.Accepts (a.name, a.contents)
    · rw [assign_of_accepts ha] at h
      exact (ih h).trans (Sheet.rules_attempt _ _)
    · obtain ⟨failure, hf⟩ := assign_of_not_accepts ha
      rw [hf] at h
      cases h

end assigning

variable {library : Pattern.Library} {complaint : String → String}

section configuration

/-- The configuration file that a run looks for. -/
def lookedFor (folder config : Option String) (noConfig : Bool) : Option String :=
  match config, noConfig, folder with
  | some path, _, _ => some path
  | none, false, some folder => some (defaultConfig folder)
  | none, _, _ => none

/-- Two trees have the same under a path, or nothing to be found. -/
def SameAt (t t' : FileTree) (path : String) : Prop :=
  (t'.find path).toOption = (t.find path).toOption

def configIn (complaint : String → String) (path : String) (found : Except FileError FileEntry) :
    Except ConfigError Config :=
  match FileTree.infoOf found with
  | .error e => .error (.file e)
  | .ok info =>
    if Config.maxBytes < info.size then .error (.tooLarge path info.size)
    else match FileTree.textAt found with
      | .ok text => (Config.parse text complaint).mapError (ConfigError.inFile path)
      | .error e => .error (.file e)

theorem load_disk (t : FileTree) (path : String) :
    (Config.load disk path complaint).run t = (configIn complaint path (t.find path), t) := by
  unfold Config.load configIn
  rw [run_bind (FileTree.info_disk t path)]
  cases FileTree.infoOf (t.find path) with
  | error _ => rfl
  | ok info =>
    dsimp only
    split
    · rfl
    · rw [run_bind (FileTree.readText_disk t path)]
      cases FileTree.textAt (t.find path) with
      | error _ => rfl
      | ok _ => rfl

def rulesIn (library : Pattern.Library) (complaint : String → String) (path : String)
    (found : Except FileError FileEntry) : Except Failure Rules :=
  match configIn complaint path found with
  | .error e => .error (.config path e)
  | .ok config =>
    match config.rules library with
    | .error e => .error (.rules e)
    | .ok rules => .ok rules

/-- The configuration file that a run reads: one that is asked for, or the user's if it is there. -/
def chosen (t : FileTree) (folder : Option String) (a : Arguments) : Option String :=
  (lookedFor folder a.config a.noConfig).filter fun path =>
    a.config.isSome || (t.find path).toOption.any FileTree.isFile

theorem configPath_disk (t : FileTree) (folder : Option String) (a : Arguments) :
    (configPath disk folder a).run t = (chosen t folder a, t) := by
  unfold configPath chosen lookedFor
  cases a.config with
  | some path => rfl
  | none =>
    cases a.noConfig with
    | true => cases folder with
      | none => rfl
      | some folder => rfl
    | false =>
      cases folder with
      | none => rfl
      | some folder =>
        dsimp only
        rw [run_bind (FileTree.containsFile_disk t _), Option.filter_some]
        simp only [Option.isSome_none, Bool.false_or]
        split
        · rfl
        · rfl

theorem rules_disk (t : FileTree) (folder : Option String) (a : Arguments) :
    (rules disk folder a library complaint).run t =
      (match chosen t folder a with
        | none => .ok .standard
        | some path => rulesIn library complaint path (t.find path), t) := by
  unfold rules
  rw [run_bind (configPath_disk t folder a)]
  cases chosen t folder a with
  | none => rfl
  | some path =>
    dsimp only
    rw [run_bind (load_disk t path)]
    unfold rulesIn
    cases configIn complaint path (t.find path) with
    | error _ => rfl
    | ok config =>
      dsimp only
      cases config.rules library with
      | error _ => rfl
      | ok _ => rfl

theorem mem_lookedFor_of_chosen {t : FileTree} {folder : Option String} {a : Arguments} {path : String}
    (h : chosen t folder a = some path) : path ∈ lookedFor folder a.config a.noConfig := by
  unfold chosen at h
  exact (Option.filter_eq_some_iff.1 h).1

theorem exists_found_of_rulesIn {path : String} {found : Except FileError FileEntry} {r : Rules}
    (h : rulesIn library complaint path found = .ok r) : ∃ entry, found = .ok entry := by
  cases found with
  | error e => cases h
  | ok entry => exact ⟨entry, rfl⟩

theorem chosen_of_same {t t' : FileTree} {folder : Option String} {a : Arguments}
    (hsame : ∀ path ∈ lookedFor folder a.config a.noConfig, SameAt t t' path) :
    chosen t' folder a = chosen t folder a := by
  unfold chosen
  cases hlooked : lookedFor folder a.config a.noConfig with
  | none => rfl
  | some path =>
    have found : (t'.find path).toOption = (t.find path).toOption := hsame path hlooked
    simp only [Option.filter_some, found]

/-- Rules that were read are read again from a tree with the same configuration file. -/
theorem rules_disk_of_same {t t' : FileTree} {folder : Option String} {a : Arguments} {r : Rules}
    (h : ((rules disk folder a library complaint).run t).1 = .ok r)
    (hsame : ∀ path ∈ lookedFor folder a.config a.noConfig, SameAt t t' path) :
    (rules disk folder a library complaint).run t' = (.ok r, t') := by
  rw [rules_disk] at h ⊢
  rw [chosen_of_same hsame]
  dsimp only at h
  cases hchosen : chosen t folder a with
  | none =>
    rw [hchosen] at h
    rw [← h]
  | some path =>
    rw [hchosen] at h
    dsimp only at h ⊢
    obtain ⟨entry, hentry⟩ := exists_found_of_rulesIn h
    have found := hsame path (mem_lookedFor_of_chosen hchosen)
    unfold SameAt at found
    rw [hentry] at h found
    cases hfound : t'.find path with
    | error e =>
      rw [hfound] at found
      cases found
    | ok entry' =>
      rw [hfound] at found
      obtain rfl := Option.some.inj found
      rw [h]

end configuration

section performing

variable {t : FileTree} {folder : Option String} {a : Arguments} {r : Rules}

theorem conclude_disk (t : FileTree) (s : Sheet) (path : String) :
    (conclude disk s (some path)).run t =
      match t.write path ((FileFormat.ofPath path).encode s.snapshot).toUTF8 with
      | .ok t' => (⟨s.listing, s!"Saved to {path}\n", 0⟩, t')
      | .error e => (Failure.outcome s.listing (.save path e), t) := by
  have hsave := Sheet.save_disk t s path
  unfold conclude
  cases h : t.write path ((FileFormat.ofPath path).encode s.snapshot).toUTF8 with
  | error _ =>
    rw [h] at hsave
    exact run_bind hsave _
  | ok _ =>
    rw [h] at hsave
    exact run_bind hsave _

theorem perform_disk (hrules : (rules disk folder a library complaint).run t = (.ok r, t))
    {s : Sheet} (hsheet : (sheet disk r a.file).run t = (.ok s, t)) :
    (perform disk folder a library complaint).run t =
      match a.assignments.foldlM assign s with
      | .error failure => (failure.outcome "", t)
      | .ok s => (conclude disk s a.output).run t := by
  unfold perform
  rw [run_bind hrules]
  dsimp only
  rw [run_bind hsheet]
  dsimp only
  cases a.assignments.foldlM assign s with
  | error _ => rfl
  | ok _ => rfl

theorem sheet_disk {path text : String} (h : t.find path = .ok (.file text.toUTF8)) {s : Sheet}
    (htext : Sheet.ofText (.ofPath path) r text = .ok s) :
    (sheet disk r (some path)).run t = (.ok s, t) := by
  have hread : FileTree.textAt (t.find path) = .ok text := by
    unfold FileTree.textAt
    rw [h]
    dsimp only
    rw [FileTree.fromUTF8?_toUTF8]
  have hload : (Sheet.load disk path r).run t = (.ok s, t) := by
    rw [Sheet.load_disk r hread, htext]
  have hthere : (disk.contains path).run t = (true, t) := by
    rw [FileTree.contains_disk, h]
    rfl
  unfold sheet
  dsimp only
  rw [run_bind hthere, if_pos rfl, run_bind hload]
  rfl

theorem sheet_disk_none (t : FileTree) (r : Rules) :
    (sheet disk r none).run t = (.ok (.new r), t) :=
  rfl

theorem run_asked {wish : Wish} {arguments : List String} (h : Asks wish arguments) (t : FileTree)
    (folder : Option String) :
    (run disk folder arguments library complaint).run t =
      match readAssignments wish.assignments with
      | .error e => (⟨"", errorLine e.message ++ usage, 1⟩, t)
      | .ok assignments =>
        (perform disk folder
          ⟨wish.file, assignments, wish.output, wish.config, wish.noConfig⟩ library
          complaint).run t := by
  unfold run
  rw [read_asked h]
  cases readAssignments wish.assignments with
  | error _ => rfl
  | ok _ => rfl

/-- A run that succeeds in saving a new sheet with these assignments leaves the tree `t'`. -/
structure Saved (library : Pattern.Library) (complaint : String → String) (t : FileTree)
    (folder : Option String) (a : Arguments) (path : String) (r : Rules) (s : Sheet)
    (t' : FileTree) : Prop where
  rules : (rules disk folder a library complaint).run t = (.ok r, t)
  assigned : a.assignments.foldlM assign (.new r) = .ok s
  written : t.write path ((FileFormat.ofPath path).encode s.snapshot).toUTF8 = .ok t'

theorem saved_of_code {path : String} (hfile : a.file = none) (houtput : a.output = some path)
    (h : ((perform disk folder a library complaint).run t).1.code = 0) :
    ∃ r s, Saved library complaint t folder a path r s
      ((perform disk folder a library complaint).run t).2 := by
  cases hr : ((rules disk folder a library complaint).run t).1 with
  | error failure =>
    have hrules : (rules disk folder a library complaint).run t = (.error failure, t) := by
      rw [← hr, rules_disk]
    unfold perform at h
    rw [run_bind hrules] at h
    cases h
  | ok r =>
    have hrules : (rules disk folder a library complaint).run t = (.ok r, t) := by
      rw [← hr, rules_disk]
    have hrun := perform_disk hrules (s := .new r) (by rw [hfile]; rfl)
    cases hs : a.assignments.foldlM assign (Sheet.new r) with
    | error failure =>
      rw [hrun, hs] at h
      cases h
    | ok s =>
      rw [hs] at hrun
      dsimp only at hrun
      rw [houtput, conclude_disk] at hrun
      cases hw : t.write path ((FileFormat.ofPath path).encode s.snapshot).toUTF8 with
      | error e =>
        rw [hrun, hw] at h
        cases h
      | ok t' =>
        rw [hrun, hw]
        exact ⟨r, s, hrules, hs, hw⟩

/-- A saved sheet is opened with the rules it was saved with, unless it was saved over them. -/
theorem Saved.reopened {t' : FileTree} {path : String} {s : Sheet}
    (h : Saved library complaint t folder a path r s t')
    (hconfig : ∀ other ∈ lookedFor folder a.config a.noConfig, t.place other ≠ t.place path) :
    (Batch.rules disk folder a library complaint).run t' = (.ok r, t') ∧
      ∃ s', (sheet disk r (some path)).run t' = (.ok s', t') ∧ Agree s' s := by
  have written := FileTree.written_of_write h.written
  have agree := agree_assigned h.assigned
  have hrules : s.rules = r := rules_assigned h.assigned
  constructor
  · exact rules_disk_of_same (congrArg Prod.fst h.rules) fun other hother =>
      written.other other (hconfig other hother)
  · obtain ⟨s', hs', agree'⟩ := Sheet.ofText_encode agree.sound agree.tidy (.ofPath path)
    rw [hrules] at hs'
    exact ⟨s', sheet_disk written.self hs', agree'⟩

def listed (result : Except Failure Sheet) : Outcome :=
  match result with
  | .error failure => failure.outcome ""
  | .ok s => ⟨s.listing, "", 0⟩

theorem perform_unsaved (hrules : (rules disk folder a library complaint).run t = (.ok r, t))
    {s : Sheet} (hsheet : (sheet disk r a.file).run t = (.ok s, t)) (houtput : a.output = none) :
    ((perform disk folder a library complaint).run t).1 =
      listed (a.assignments.foldlM assign s) := by
  rw [perform_disk hrules hsheet, houtput]
  cases a.assignments.foldlM assign s with
  | error _ => rfl
  | ok _ => rfl

theorem listed_agree {s s' : Sheet} (h : Agree s s') (assignments : List Assignment) :
    (listed (assignments.foldlM assign s)).Same (listed (assignments.foldlM assign s')) := by
  rcases assigned_agree h assignments with ⟨u, u', hu, hu', agree⟩ | ⟨failure, failure', hf, hf'⟩
  · rw [hu, hu']
    exact ⟨rfl, agree.listing⟩
  · rw [hf, hf']
    exact ⟨rfl, rfl⟩

end performing

/-- Assignments made in two runs, with the sheet saved in between and opened again, show in the end what
they show when they are made in one run, be it before the file was there or after. -/
theorem run_in_two_parts {t t' : FileTree} {folder config : Option String} {noConfig : Bool}
    {file : String} {first second saving opening whole : List String} {o : Outcome}
    (hsaving : Asks ⟨none, first, some file, config, noConfig⟩ saving)
    (hopening : Asks ⟨some file, second, none, config, noConfig⟩ opening)
    (hwhole : Asks ⟨none, first ++ second, none, config, noConfig⟩ whole)
    (hconfig : ∀ path ∈ lookedFor folder config noConfig, t.place path ≠ t.place file)
    (hsaved : (run disk folder saving library complaint).run t = (o, t')) (hcode : o.code = 0) :
    ∀ u ∈ [t, t'], ((run disk folder opening library complaint).run t').1.Same
      ((run disk folder whole library complaint).run u).1 := by
  intro u hu
  rw [run_asked hsaving] at hsaved
  rw [run_asked hopening, run_asked hwhole, readAssignments_append]
  cases hfirst : readAssignments first with
  | error e =>
    rw [hfirst] at hsaved
    obtain rfl := (Prod.mk.inj hsaved).1
    cases hcode
  | ok assignments =>
    rw [hfirst] at hsaved
    dsimp only at hsaved
    obtain ⟨r, s, saved⟩ := saved_of_code rfl rfl ((congrArg (·.1.code) hsaved).trans hcode)
    rw [hsaved] at saved
    obtain ⟨hrules, s', hsheet, agree⟩ := saved.reopened hconfig
    cases readAssignments second with
    | error e => exact ⟨rfl, rfl⟩
    | ok assignments' =>
      have hopened : (rules disk folder ⟨some file, assignments', none, config, noConfig⟩ library
          complaint).run t' = (.ok r, t') := hrules
      have hnew : (rules disk folder ⟨none, assignments ++ assignments', none, config, noConfig⟩
          library complaint).run u = (.ok r, u) := by
        rcases List.mem_pair.1 hu with rfl | rfl
        · exact saved.rules
        · exact hrules
      have hassigned : (assignments ++ assignments').foldlM assign (.new r) =
          assignments'.foldlM assign s := by
        rw [List.foldlM_append, saved.assigned]
        rfl
      dsimp only [Except.bind, Except.map]
      rw [perform_unsaved hopened hsheet rfl, perform_unsaved hnew (sheet_disk_none u r) rfl,
        hassigned]
      exact listed_agree agree assignments'

/-- No configuration is there to be saved over. -/
theorem run_in_two_parts_of_empty :
    ∃ o t', (run disk (some "home") ["-s", "A1=x", "-o", "sheet.xml"]).run .empty = (o, t') ∧
      o.code = 0 ∧
      (∀ path ∈ lookedFor (some "home") none false,
        FileTree.empty.place path ≠ FileTree.empty.place "sheet.xml") ∧
      ∀ u ∈ [.empty, t'], ((run disk (some "home") ["--set", "B1==A1", "sheet.xml"]).run t').1.Same
        ((run disk (some "home") ["-s", "A1=x", "-s", "B1==A1"]).run u).1 := by
  have saving : Asks ⟨none, ["A1=x"], some "sheet.xml", none, false⟩
      ["-s", "A1=x", "-o", "sheet.xml"] :=
    .set "A1=x" (.inl rfl) (.output "sheet.xml" (.inl rfl) .nothing)
  have opening : Asks ⟨some "sheet.xml", ["B1==A1"], none, none, false⟩
      ["--set", "B1==A1", "sheet.xml"] :=
    .set "B1==A1" (.inr rfl) (.file (by decide) .nothing)
  have whole : Asks ⟨none, ["A1=x", "B1==A1"], none, none, false⟩ ["-s", "A1=x", "-s", "B1==A1"] :=
    .set "A1=x" (.inl rfl) (.set "B1==A1" (.inl rfl) .nothing)
  have place : FileTree.empty.place "sheet.xml" = .ok ["sheet.xml".toList] := by decide
  have config : ∀ path ∈ lookedFor (some "home") none false,
      FileTree.empty.place path ≠ FileTree.empty.place "sheet.xml" := by
    rintro path hpath
    obtain rfl := Option.mem_some.1 hpath
    have hp : FileTree.empty.place (defaultConfig "home") = .error .missing := by decide
    rw [hp, place]
    nofun
  have rules : (rules disk (some "home")
      ⟨none, [⟨"A1", "x"⟩], some "sheet.xml", none, false⟩).run .empty = (.ok .standard, .empty) := by
    rw [rules_disk]
    rfl
  have first : (Sheet.new .standard).set "A1" "x" = .ok
      (((Sheet.new .standard).commit "A1" (.text "x")).recalculate ["A1"], ["A1"]) := by
    rw [Sheet.set_of_valid (n := "A1") (c := .text "x") _ (by decide) rfl]
    rfl
  have assigned : [⟨"A1", "x"⟩].foldlM assign (.new .standard) =
      .ok (((Sheet.new .standard).commit "A1" (.text "x")).recalculate ["A1"]) := by
    rw [List.foldlM_cons, assign, first]
    rfl
  have written (bytes : ByteArray) : FileTree.empty.write "sheet.xml" bytes =
      .ok (FileTree.empty.insert ["sheet.xml".toList] (.file bytes)) := by
    have name : ("sheet.xml".toList.reverse.dropWhile (· == '/')).reverse = "sheet.xml".toList := by
      decide
    unfold FileTree.write
    rw [name]
    dsimp only
    rw [String.ofList_toList, ite_self, place]
    dsimp only
    rw [if_neg (by decide)]
    rfl
  have saved :
      ((run disk (some "home") ["-s", "A1=x", "-o", "sheet.xml"]).run .empty).1.code = 0 := by
    rw [run_asked saving, show readAssignments ["A1=x"] = .ok [⟨"A1", "x"⟩] from rfl]
    dsimp only
    rw [perform_disk rules (sheet_disk_none _ _), assigned]
    dsimp only
    rw [conclude_disk, written]
  exact ⟨_, _, rfl, saved, config, run_in_two_parts saving opening whole config rfl saved⟩

end Worksheet.Batch
