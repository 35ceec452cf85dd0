import Worksheet.Batch.Arguments

set_option autoImplicit false

/-!
# Command lines read

A command line that asks for something is read as asking for it, in whatever order it does so. Only the
assignments are kept in order.
-/
namespace Worksheet.Batch

/-- What a command line asks for, the assignments as they are written. -/
structure Wish where
  file : Option String
  assignments : List String
  output : Option String
  config : Option String
  noConfig : Bool

/-- The arguments ask for this, each file at most once. -/
inductive Asks : Wish → List String → Prop where
  | nothing : Asks ⟨none, [], none, none, false⟩ []
  | set {file assignments output config noConfig rest} {word : String} (assignment : String)
      (hword : word = "-s" ∨ word = "--set")
      (h : Asks ⟨file, assignments, output, config, noConfig⟩ rest) :
      Asks ⟨file, assignment :: assignments, output, config, noConfig⟩ (word :: assignment :: rest)
  | output {file assignments config noConfig rest} {word : String} (path : String)
      (hword : word = "-o" ∨ word = "--output")
      (h : Asks ⟨file, assignments, none, config, noConfig⟩ rest) :
      Asks ⟨file, assignments, some path, config, noConfig⟩ (word :: path :: rest)
  | config {file assignments output noConfig rest} {word : String} (path : String)
      (hword : word = "-c" ∨ word = "--config")
      (h : Asks ⟨file, assignments, output, none, noConfig⟩ rest) :
      Asks ⟨file, assignments, output, some path, noConfig⟩ (word :: path :: rest)
  | noConfig {file assignments output config noConfig rest}
      (h : Asks ⟨file, assignments, output, config, noConfig⟩ rest) :
      Asks ⟨file, assignments, output, config, true⟩ ("--no-config" :: rest)
  | file {assignments output config noConfig rest} {path : String} (hpath : path.toList.head? ≠ some '-')
      (h : Asks ⟨none, assignments, output, config, noConfig⟩ rest) :
      Asks ⟨some path, assignments, output, config, noConfig⟩ (path :: rest)

def readAssignments (texts : List String) : Except ArgumentError (List Assignment) :=
  texts.mapM fun text =>
    match assignment? text with
    | some assignment => .ok assignment
    | none => .error (.badAssignment text)

section words

variable {word : String}

theorem switch?_set (h : word = "-s" ∨ word = "--set") : switch? word = some .set := by
  rcases h with rfl | rfl
  · rfl
  · rfl

theorem switch?_output (h : word = "-o" ∨ word = "--output") : switch? word = some .output := by
  rcases h with rfl | rfl
  · rfl
  · rfl

theorem switch?_config (h : word = "-c" ∨ word = "--config") : switch? word = some .config := by
  rcases h with rfl | rfl
  · rfl
  · rfl

theorem switch?_file (h : word.toList.head? ≠ some '-') : switch? word = none := by
  have hne {option : String} (hoption : option.toList.head? = some '-') : word ≠ option :=
    fun he => h (he ▸ hoption)
  have hneither {short long : String} (hshort : short.toList.head? = some '-')
      (hlong : long.toList.head? = some '-') : ¬(word = short ∨ word = long) :=
    not_or.2 ⟨hne hshort, hne hlong⟩
  unfold switch?
  rw [if_neg (hneither rfl rfl), if_neg (hneither rfl rfl), if_neg (hneither rfl rfl),
    if_neg (hneither rfl rfl), if_neg (hne rfl), if_neg h]

end words

theorem readAssignments_cons (text : String) (texts : List String) :
    readAssignments (text :: texts) =
      match assignment? text with
      | none => .error (.badAssignment text)
      | some assignment => (readAssignments texts).map (assignment :: ·) := by
  unfold readAssignments
  rw [List.mapM_cons]
  cases assignment? text with
  | none => rfl
  | some assignment =>
    change (do
      let assignments ← readAssignments texts
      pure (assignment :: assignments)) = (readAssignments texts).map (assignment :: ·)
    cases readAssignments texts with
    | error _ => rfl
    | ok _ => rfl

/-- The arguments with what is asked for besides. -/
def Wish.onto (wish : Wish) (a : Arguments) (assignments : List Assignment) : Arguments :=
  ⟨wish.file <|> a.file, a.assignments ++ assignments, wish.output <|> a.output,
    wish.config <|> a.config, wish.noConfig || a.noConfig⟩

theorem readFrom_asked {wish : Wish} {arguments : List String} (h : Asks wish arguments)
    {a : Arguments} (hfile : a.file = none ∨ wish.file = none) :
    readFrom a arguments =
      (readAssignments wish.assignments).map fun assignments => .run (wish.onto a assignments) := by
  induction h generalizing a with
  | nothing =>
    change _ = Except.ok (Request.run ⟨a.file, a.assignments ++ [], a.output, a.config, a.noConfig⟩)
    rw [List.append_nil, readFrom]
  | set assignment hword h ih =>
    rw [readFrom.eq_def, readAssignments_cons]
    simp only [switch?_set hword]
    cases assignment? assignment with
    | none => rfl
    | some first =>
      refine (ih (a := { a with assignments := a.assignments ++ [first] }) hfile).trans ?_
      dsimp only
      cases readAssignments _ with
      | error _ => rfl
      | ok assignments => simp only [Except.map, Wish.onto, List.append_assoc, List.singleton_append]
  | output path hword h ih =>
    rw [readFrom.eq_def]
    simp only [switch?_output hword]
    exact ih hfile
  | config path hword h ih =>
    rw [readFrom.eq_def]
    simp only [switch?_config hword]
    exact ih hfile
  | noConfig h ih =>
    have hword : switch? "--no-config" = some .noConfig := rfl
    rw [readFrom.eq_def]
    simp only [hword]
    refine (ih (a := { a with noConfig := true }) hfile).trans ?_
    simp only [Wish.onto, Bool.or_true, Bool.true_or]
  | @file assignments output config noConfig rest path hpath h ih =>
    have hnone : a.file = none := hfile.resolve_right (Option.some_ne_none path)
    rw [readFrom.eq_def]
    simp only [switch?_file hpath, hnone, Option.isSome_none, Bool.false_eq_true, ↓reduceIte]
    exact ih (.inr rfl)

/-- The arguments are read as what they ask for, unless one of the assignments is none. -/
theorem read_asked {wish : Wish} {arguments : List String} (h : Asks wish arguments) :
    read arguments = (readAssignments wish.assignments).map fun assignments =>
      .run ⟨wish.file, assignments, wish.output, wish.config, wish.noConfig⟩ := by
  have hread := readFrom_asked h (a := .initial) (.inl rfl)
  have honto (assignments : List Assignment) : wish.onto .initial assignments =
      ⟨wish.file, assignments, wish.output, wish.config, wish.noConfig⟩ := by
    simp [Wish.onto, Arguments.initial]
  simp only [honto] at hread
  exact hread

theorem readAssignments_append (texts texts' : List String) :
    readAssignments (texts ++ texts') =
      (readAssignments texts).bind fun assignments =>
        (readAssignments texts').map (assignments ++ ·) := by
  induction texts with
  | nil =>
    change readAssignments texts' = (readAssignments texts').map ([] ++ ·)
    cases readAssignments texts' with
    | error _ => rfl
    | ok _ => rfl
  | cons text texts ih =>
    rw [List.cons_append, readAssignments_cons, readAssignments_cons, ih]
    cases assignment? text with
    | none => rfl
    | some assignment =>
      cases readAssignments texts with
      | error _ => rfl
      | ok _ =>
        cases readAssignments texts' with
        | error _ => rfl
        | ok _ => rfl

end Worksheet.Batch
