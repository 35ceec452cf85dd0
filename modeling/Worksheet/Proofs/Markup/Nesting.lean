import Worksheet.Markup.Reader

set_option autoImplicit false

/-!
# Nested elements

The events of a document in which every element is closed are those of a forest: texts, tags without
content, and elements around forests of their own.
-/
namespace Worksheet.Markup

/-- What stands in a document or in one of its elements, each part with what follows it. -/
inductive Forest where
  | done
  | text (raw : List Char) (rest : Forest)
  | verbatim (cs : List Char) (rest : Forest)
  | aside (rest : Forest)
  | empty (tag : Tag) (rest : Forest)
  | element (tag : Tag) (inner rest : Forest)

namespace Forest

def events : Forest → List Event
  | done => []
  | text raw rest => .text raw :: rest.events
  | verbatim cs rest => .verbatim cs :: rest.events
  | aside rest => .aside :: rest.events
  | empty tag rest => .empty tag :: rest.events
  | element tag inner rest => .start tag :: (inner.events ++ .close tag.name :: rest.events)

def plainText : Forest → Except ReferenceFault (List Char)
  | done => .ok []
  | text raw rest => do return (← unescape raw) ++ (← rest.plainText)
  | verbatim cs rest => do return cs ++ (← rest.plainText)
  | aside rest | empty _ rest => rest.plainText
  | element _ inner rest => do return (← inner.plainText) ++ (← rest.plainText)

end Forest

/-- The elements that are open after events, innermost first. -/
def openedAfter (opened : List (List Char)) (events : List Event) : List (List Char) :=
  events.foldl (fun opened event => event.openedAfter opened) opened

/-- Every closing tag has the name of the element opened last. -/
def Nested : List (List Char) → List Event → Prop
  | _, [] => True
  | opened, event :: events =>
    (∀ name, event = .close name → opened.head? = some name) ∧
      Nested (event.openedAfter opened) events

section reading

variable {opened : List (List Char)} {cs : List Char} {p : Piece}

theorem tag_ne_close (h : tag cs = .ok p) (name : List Char) : p.event ≠ .close name := by
  unfold tag at h
  split at h
  · cases h
  dsimp only at h
  split at h
  · obtain rfl := Except.ok.inj h
    nofun
  · obtain rfl := Except.ok.inj h
    nofun

theorem instruction_ne_close (h : instruction cs = .ok p) (name : List Char) :
    p.event ≠ .close name := by
  unfold instruction at h
  dsimp only at h
  split at h
  · obtain rfl := Except.ok.inj h
    nofun
  · cases h

theorem declaration_ne_close (h : declaration cs = .ok p) (name : List Char) :
    p.event ≠ .close name := by
  have found {c : Bool} {event : Event} {n : Nat} {fault : Fault}
      (h : (if c then Except.ok ⟨event, n⟩ else .error fault) = .ok p)
      (hevent : event ≠ .close name) : p.event ≠ .close name := by
    split at h
    · obtain rfl := Except.ok.inj h
      exact hevent
    · cases h
  unfold declaration at h
  split at h
  · cases h
  · split at h
    · exact found h nofun
    · cases h
  · split at h
    · exact found h nofun
    · cases h
  · split at h
    · split at h
      · split at h
        · split at h
          · cases h
          · obtain rfl := Except.ok.inj h
            nofun
        · cases h
      · cases h
    · cases h

theorem head?_of_closing {name : List Char} (h : closing opened cs = .ok p)
    (hclose : p.event = .close name) : opened.head? = some name := by
  unfold closing at h
  dsimp only at h
  split at h
  · cases h
  split at h
  · rename_i hname
    obtain rfl := Except.ok.inj h
    rw [← hname, ← Event.close.inj hclose]
    rfl
  · cases h

theorem head?_of_piece {name : List Char} (h : piece opened cs = .ok p)
    (hclose : p.event = .close name) : opened.head? = some name := by
  unfold piece at h
  split at h
  · exact absurd hclose (declaration_ne_close h name)
  · exact head?_of_closing h hclose
  · exact absurd hclose (instruction_ne_close h name)
  · exact absurd hclose (tag_ne_close h name)

theorem nested_text (opened : List (List Char)) {before : List Item} {text : List Char} {offset : Nat}
    (hbefore : before = if text = [] then [] else [⟨.text text, offset⟩]) {events : List Event}
    (h : Nested opened events) : Nested opened (before.map Item.event ++ events) := by
  subst hbefore
  split
  · exact h
  · exact ⟨nofun, h⟩

/-- A document is read only as far as its closing tags fit. -/
theorem nested_readFrom (offset : Nat) (opened : List (List Char)) (cs : List Char) :
    Nested opened ((readFrom offset opened cs).items.map Item.event) := by
  induction offset, opened, cs using readFrom.induct with
  | case1 offset opened cs text body hbody =>
    rw [readFrom, dif_pos hbody]
    rw [← List.append_nil (List.map _ _)]
    exact nested_text opened rfl trivial
  | case2 offset opened cs text body hbody fault hpiece =>
    rw [readFrom, dif_neg hbody]
    simp only [body, text] at hpiece
    rw [hpiece]
    rw [← List.append_nil (List.map _ _)]
    exact nested_text opened rfl trivial
  | case3 offset opened cs text body offset' hbody p hpiece stop ih =>
    rw [readFrom, dif_neg hbody]
    simp only [body, text] at hpiece
    rw [hpiece]
    dsimp only
    rw [List.map_append, List.map_cons]
    exact nested_text opened rfl ⟨fun name hclose => head?_of_piece hpiece hclose, ih⟩

theorem nested_read (cs : List Char) : Nested [] ((read cs).items.map Item.event) := by
  unfold read
  split
  · exact nested_readFrom 0 [] _
  · exact nested_readFrom 0 [] _

end reading

section closed

/-- Contents with the closing tags of the open elements between them. -/
inductive Closes : List (List Char) → List Event → Prop where
  | last (forest : Forest) : Closes [] forest.events
  | tag (forest : Forest) (name : List Char) {opened : List (List Char)} {events : List Event}
      (h : Closes opened events) : Closes (name :: opened) (forest.events ++ .close name :: events)

theorem Closes.cons {opened : List (List Char)} {events : List Event} (h : Closes opened events)
    (front : List Event) (add : Forest → Forest)
    (hadd : ∀ forest, (add forest).events = front ++ forest.events) :
    Closes opened (front ++ events) := by
  cases h with
  | last forest =>
    rw [← hadd]
    exact .last (add forest)
  | tag forest name h =>
    rw [← List.append_assoc, ← hadd]
    exact .tag (add forest) name h

theorem Nested.closes {opened : List (List Char)} {events : List Event} (h : Nested opened events)
    (hclosed : openedAfter opened events = []) : Closes opened events := by
  induction events generalizing opened with
  | nil =>
    obtain rfl : opened = [] := hclosed
    exact .last .done
  | cons event events ih =>
    have hrest := ih h.2 hclosed
    cases event with
    | text raw => exact hrest.cons [_] (.text raw) fun _ => rfl
    | verbatim cs => exact hrest.cons [_] (.verbatim cs) fun _ => rfl
    | aside => exact hrest.cons [_] .aside fun _ => rfl
    | empty tag => exact hrest.cons [_] (.empty tag) fun _ => rfl
    | close name =>
      obtain ⟨opened, rfl⟩ := List.head?_eq_some_iff.1 (h.1 name rfl)
      exact .tag .done name hrest
    | start tag =>
      obtain _ | ⟨inner, -, hafter⟩ := hrest
      have helement := hafter.cons (.start tag :: (inner.events ++ [.close tag.name]))
        (.element tag inner) fun forest => by simp [Forest.events]
      simpa using helement

theorem exists_forest {events : List Event} (h : Nested [] events)
    (hclosed : openedAfter [] events = []) : ∃ forest : Forest, events = forest.events := by
  obtain ⟨forest⟩ | _ := h.closes hclosed
  exact ⟨forest, rfl⟩

end closed

end Worksheet.Markup
