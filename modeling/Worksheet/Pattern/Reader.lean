import Worksheet.Pattern.Library

set_option autoImplicit false

/-!
# Reading patterns

The written form of patterns: literals, classes in brackets with set operations, groups, alternatives,
repetitions, anchors, word edges, and flags that hold to the end of their group. There is no
look-around and no reference back to a group, so both are refused. Which characters a class has is asked
of a library.
-/
namespace Worksheet.Pattern
open Worksheet.Text

structure Flags where
  ignoreCase : Bool
  multiLine : Bool
  dotAll : Bool
  swapGreed : Bool
  unicode : Bool
  returns : Bool
  verbose : Bool

def Flags.initial : Flags := ⟨false, false, false, false, true, false, false⟩

def Flags.set? (f : Flags) (letter : Char) (on : Bool) : Option Flags :=
  match letter with
  | 'i' => some { f with ignoreCase := on }
  | 'm' => some { f with multiLine := on }
  | 's' => some { f with dotAll := on }
  | 'U' => some { f with swapGreed := on }
  | 'u' => some { f with unicode := on }
  | 'R' => some { f with returns := on }
  | 'x' => some { f with verbose := on }
  | _ => none

/-- What is left to read, the flags that hold there, and the names of the groups so far. -/
structure Scan where
  rest : List Char
  flags : Flags
  names : List (List Char)

abbrev Read := StateT Scan Option

namespace Read

def peek : Read (Option Char) := do return (← get).rest.head?

def flags : Read Flags := do return (← get).flags

def setFlags (f : Flags) : Read Unit := modify fun s => { s with flags := f }

def bump : Read Unit := modify fun s => { s with rest := s.rest.tail }

/-- Drop blanks, and comments up to the end of their line. -/
def skipVerbose (inComment : Bool) : List Char → List Char
  | [] => []
  | c :: cs =>
    if inComment then skipVerbose (c ≠ '\n') cs
    else if isBlank c then skipVerbose false cs
    else if c = '#' then skipVerbose true cs
    else c :: cs

def space : Read Unit :=
  modify fun s => if s.flags.verbose then { s with rest := skipVerbose false s.rest } else s

def bumpSpace : Read Unit := do
  bump
  space

def need : Read Char := do
  match ← peek with
  | some c => return c
  | none => failure

def expect (c : Char) : Read Unit := do
  if (← need) = c then bump else failure

def take (text : String) : Read Bool := do
  let s ← get
  if text.toList.isPrefixOf s.rest then
    set { s with rest := s.rest.drop text.length }
    return true
  else return false

/-- The character after the next one, past blanks where those do not count. -/
def peekSecond : Read (Option Char) := do
  let s ← get
  if s.flags.verbose then
    match s.rest.tail.dropWhile isBlank with
    | '#' :: cs => return (cs.dropWhile isBlank).head?
    | cs => return cs.head?
  else return s.rest.tail.head?

end Read

open Read

/-- What a plain character or an escape stands for; `byte` marks a two-digit hexadecimal escape. -/
inductive Atom where
  | literal (c : Char) (byte : Bool)
  | cls (set : CharClass)
  | look (test : Look)

def hexDigit? (c : Char) : Option Nat :=
  if c.isDigit then some (c.toNat - 48)
  else if 'a' ≤ c ∧ c ≤ 'f' then some (c.toNat - 87)
  else if 'A' ≤ c ∧ c ≤ 'F' then some (c.toNat - 55)
  else none

def char? (n : Nat) : Option Char := if n.isValidChar then some (Char.ofNat n) else none

def hexDigits : Nat → Nat → Read Nat
  | 0, value => return value
  | n + 1, value => do
    let some d := hexDigit? (← need) | failure
    bumpSpace
    hexDigits n (16 * value + d)

def hexBrace : Nat → Nat → Bool → Read Nat
  | 0, _, _ => failure
  | n + 1, value, given => do
    let c ← need
    if c = '\x7d' then
      bumpSpace
      if given then return value else failure
    else
      let some d := hexDigit? c | failure
      bumpSpace
      if 0x110000 ≤ value then failure else hexBrace n (16 * value + d) true

def hexEscape (digits : Nat) : Read Atom := do
  bumpSpace
  if (← need) = '\x7b' then
    bumpSpace
    let value ← hexBrace ((← get).rest.length + 1) 0 false
    let some c := char? value | failure
    return .literal c false
  else
    let some c := char? (← hexDigits digits 0) | failure
    return .literal c (digits == 2)

def braced : Nat → List Char → Read (List Char)
  | 0, _ => failure
  | n + 1, taken => do
    let c ← need
    if c = '\x7d' then
      bump
      return taken.reverse
    else
      bumpSpace
      braced n (c :: taken)

def cutAt? (separator : List Char) : List Char → Option (List Char × List Char)
  | [] => none
  | c :: cs =>
    if separator.isPrefixOf (c :: cs) then some ([], (c :: cs).drop separator.length)
    else (cutAt? separator cs).map fun parts => (c :: parts.1, parts.2)

/-- The property that a name in braces asks for, and whether its characters are left out. -/
def bracedProperty (name : List Char) : Property × Bool :=
  match cutAt? ['!', '='] name with
  | some (property, value) => (.valued property value, true)
  | none =>
    match (cutAt? [':'] name).or (cutAt? ['='] name) with
    | some (property, value) => (.valued property value, false)
    | none => (.named name, false)

/-- The class with the case of its members not looked at, if the flags say so. -/
def Library.fold (library : Library) (f : Flags) (set : CharClass) : CharClass :=
  if !f.ignoreCase then set
  else if f.unicode then library.caseClosure set
  else set.asciiCaseClosure

def propertyEscape (library : Library) (negated : Bool) : Read Atom := do
  bumpSpace
  let c ← need
  let (property, without) ← do
    if c = '\x7b' then
      bumpSpace
      pure (bracedProperty (← braced ((← get).rest.length + 1) []))
    else if c = '\\' then failure
    else
      bumpSpace
      pure (.letter c, false)
  let f ← flags
  if !f.unicode then failure
  let some set := library.property? property | failure
  let set := library.fold f set
  return .cls (if negated != without then set.negate else set)

/-- A class named by one letter; outside of the Unicode mode it must not hold half characters. -/
def letterClass (negated : Bool) (unicodeSet asciiSet : CharClass) : Read Atom := do
  bump
  if (← flags).unicode then return .cls (if negated then unicodeSet.negate else unicodeSet)
  else if negated then failure
  else return .cls asciiSet

def wordLook (library : Library) (edge : WordEdge) : Read Atom := do
  return .look (.word (if (← flags).unicode then library.word else asciiWord) edge)

def isEdgeChar (c : Char) : Bool := c.isAlpha || c == '-'

def edgeName : Nat → List Char → Read String
  | 0, _ => failure
  | n + 1, taken => do
    let c ← need
    if isEdgeChar c then
      bumpSpace
      edgeName n (c :: taken)
    else return String.ofList taken.reverse

/-- The word edge after its letter: a braced name, unless the brace begins a repetition. -/
def wordEdge (library : Library) : Read Atom := do
  let s ← get
  if s.rest.head? = some '\x7b' then
    bumpSpace
    if isEdgeChar (← need) then
      let name ← edgeName s.rest.length []
      expect '\x7d'
      match name with
      | "start" => wordLook library .start
      | "end" => wordLook library .finish
      | "start-half" => wordLook library .startHalf
      | "end-half" => wordLook library .finishHalf
      | _ => failure
    else
      set s
      wordLook library .boundary
  else wordLook library .boundary

def escape (library : Library) : Read Atom := do
  bump
  let c ← need
  match c with
  | 'x' => hexEscape 2
  | 'u' => hexEscape 4
  | 'U' => hexEscape 8
  | 'p' => propertyEscape library false
  | 'P' => propertyEscape library true
  | 'd' => letterClass false library.digit asciiDigit
  | 'D' => letterClass true library.digit asciiDigit
  | 's' => letterClass false library.blank asciiBlank
  | 'S' => letterClass true library.blank asciiBlank
  | 'w' => letterClass false library.word asciiWord
  | 'W' => letterClass true library.word asciiWord
  | _ =>
    bump
    match c with
    | 'a' => return .literal '\x07' false
    | 'f' => return .literal '\x0c' false
    | 't' => return .literal '\t' false
    | 'n' => return .literal '\n' false
    | 'r' => return .literal '\r' false
    | 'v' => return .literal '\x0b' false
    | 'A' => return .look .textStart
    | 'z' => return .look .textEnd
    | 'b' => wordEdge library
    | 'B' => wordLook library .inside
    | '<' => wordLook library .start
    | '>' => wordLook library .finish
    | _ => if c.toNat < 128 ∧ !c.isAlphanum then return .literal c false else failure

def literalRegex (library : Library) (f : Flags) (c : Char) (byte : Bool) : Option Regex :=
  if !f.unicode ∧ byte ∧ 128 ≤ c.toNat then none
  else some (.oneOf (library.fold f (.single c)))

def dotRegex (f : Flags) : Option Regex :=
  if !f.unicode then none
  else if f.dotAll then some (.oneOf fun _ => true)
  else if f.returns then some (.oneOf fun n => n != 10 && n != 13)
  else some (.oneOf fun n => n != 10)

def primitive (library : Library) : Read Item := do
  let f ← flags
  let c ← need
  let r? ← do
    match c with
    | '\\' =>
      match ← escape library with
      | .literal c byte => pure (literalRegex library f c byte)
      | .cls set => pure (some (.oneOf set))
      | .look test => pure (some (.look test))
    | '.' => do bump; pure (dotRegex f)
    | '^' => do bump; pure (some (.look (if f.multiLine then .lineStart f.returns else .textStart)))
    | '$' => do bump; pure (some (.look (if f.multiLine then .lineEnd f.returns else .textEnd)))
    | _ => do bump; pure (literalRegex library f c false)
  let some r := r? | failure
  return ⟨r, 0, false⟩

/-- The name of a class in brackets and colons, if one stands here. -/
def asciiName? (rest : List Char) : Option (CharClass × Bool × List Char) :=
  match rest with
  | '[' :: ':' :: rest =>
    let negated := rest.head? == some '^'
    let rest := if negated then rest.tail else rest
    let name := rest.takeWhile (· ≠ ':')
    match rest.dropWhile (· ≠ ':'), asciiClass? (String.ofList name) with
    | ':' :: ']' :: rest, some set => some (set, negated, rest)
    | _, _ => none
  | _ => none

inductive SetOp where
  | both
  | without
  | either

def SetOp.apply (library : Library) (f : Flags) (op : SetOp) (a b : CharClass) : CharClass :=
  let a := library.fold f a
  let b := library.fold f b
  match op with
  | both => fun n => a n && b n
  | without => fun n => a n && !b n
  | either => fun n => a n != b n

/-- A class under way: the members since the last set operation, their number, the greatest depth among
them, and the operation that waits for them with its left side. -/
structure Gathered where
  set : CharClass
  count : Nat
  depth : Nat
  waiting : Option (SetOp × CharClass × Nat)

namespace Gathered

def start : Gathered := ⟨.none, 0, 0, none⟩

def add (g : Gathered) (set : CharClass) (depth : Nat) : Gathered :=
  { g with set := g.set.union set, count := g.count + 1, depth := max g.depth depth }

def close (library : Library) (f : Flags) (g : Gathered) : CharClass × Nat :=
  let depth := if 2 ≤ g.count then g.depth + 1 else g.depth
  match g.waiting with
  | none => (g.set, depth)
  | some (op, left, leftDepth) => (op.apply library f left g.set, max depth leftDepth + 1)

def operate (library : Library) (f : Flags) (op : SetOp) (g : Gathered) : Gathered :=
  ⟨.none, 0, 0, some (op, g.close library f)⟩

end Gathered

def setLiteral (f : Flags) (c : Char) : Read Char :=
  if !f.unicode ∧ 128 ≤ c.toNat then failure else return c

/-- One member of a class, before it is known whether it begins a range. -/
def setMember (library : Library) (f : Flags) : Read (Char ⊕ CharClass) := do
  let c ← need
  if c = '\\' then
    match ← escape library with
    | .literal c _ => return .inl c
    | .cls set => return .inr set
    | .look _ => failure
  else
    bump
    return .inl (← setLiteral f c)

def setRange (library : Library) (f : Flags) (g : Gathered) : Read Gathered := do
  let first ← setMember library f
  space
  let next ← need
  let second ← peekSecond
  if next ≠ '-' ∨ second = some ']' ∨ second = some '-' then
    match first with
    | .inl c => return g.add (.single (← setLiteral f c)) 0
    | .inr set => return g.add set 0
  else
    bumpSpace
    let _ ← need
    match first, ← setMember library f with
    | .inl lo, .inl hi =>
      let lo ← setLiteral f lo
      let hi ← setLiteral f hi
      if hi < lo then failure else return g.add (.range lo hi) 0
    | _, _ => failure

/-- Hyphens at the start of a class stand for themselves. -/
def leadingHyphens : Nat → Gathered → Read Gathered
  | 0, _ => failure
  | n + 1, g => do
    if (← need) = '-' then
      bumpSpace
      leadingHyphens n (g.add (.single '-') 0)
    else return g

/-- The start of a class: its bracket, whether it is negated, and what stands for itself there. -/
def setOpen : Read (Bool × Gathered) := do
  bumpSpace
  let negated := (← need) == '^'
  if negated then bumpSpace
  let g ← leadingHyphens ((← get).rest.length + 1) .start
  if g.count = 0 ∧ (← need) = ']' then
    bumpSpace
    return (negated, g.add (.single ']') 0)
  else return (negated, g)

def setBody (library : Library) : Nat → Bool → Gathered → Read (CharClass × Nat)
  | 0, _, _ => failure
  | n + 1, negated, g => do
    let f ← flags
    space
    let c ← need
    let second := (← get).rest.tail.head?
    if c = '[' then
      match asciiName? (← get).rest with
      | some (set, negated', rest) =>
        modify fun s => { s with rest := rest }
        let set := library.fold f set
        if negated' ∧ !f.unicode then failure
        setBody library n negated (g.add (if negated' then set.negate else set) 0)
      | none =>
        let (inner, g') ← setOpen
        let (set, depth) ← setBody library n inner g'
        setBody library n negated (g.add set depth)
    else if c = ']' then
      bump
      let (set, depth) := g.close library f
      let set := library.fold f set
      let set := if negated then set.negate else set
      if !f.unicode ∧ set.hasHighByte then failure
      return (set, depth + 1)
    else if c = '&' ∧ second = some '&' then
      bump; bump
      setBody library n negated (g.operate library f .both)
    else if c = '-' ∧ second = some '-' then
      bump; bump
      setBody library n negated (g.operate library f .without)
    else if c = '~' ∧ second = some '~' then
      bump; bump
      setBody library n negated (g.operate library f .either)
    else setBody library n negated (← setRange library f g)

def bracketed (library : Library) : Read Item := do
  let fuel := (← get).rest.length + 1
  let (negated, g) ← setOpen
  let (set, depth) ← setBody library fuel negated g
  return ⟨.oneOf set, depth, false⟩

def decimal : Read (Option Nat) := do
  modify fun s => { s with rest := s.rest.dropWhile isBlank }
  let s ← get
  let rec digits : Nat → List Char → Read (List Char)
    | 0, _ => failure
    | n + 1, taken => do
      match ← peek with
      | some c =>
        if c.isDigit then
          bumpSpace
          digits n (c :: taken)
        else return taken.reverse
      | none => return taken.reverse
  let ds ← digits (s.rest.length + 1) []
  modify fun s => { s with rest := s.rest.dropWhile isBlank }
  if ds = [] then return none
  let value := Nat.ofDigitChars 10 ds 0
  if value < 4294967296 then return some value else failure

/-- The counts of a repetition, from its opening brace on. -/
def counts : Read (Nat × Option Nat) := do
  bumpSpace
  let _ ← need
  let least ← decimal
  let some least := least | failure
  let range ← do
    if (← need) = ',' then
      bumpSpace
      if (← need) = '\x7d' then pure (least, none)
      else
        let some greatest ← decimal | failure
        pure (least, some greatest)
    else pure (least, some least)
  expect '\x7d'
  space
  match range.2 with
  | some greatest => if greatest < least then failure else return range
  | none => return range

/-- Repeat the last item. The mark for fewest repetitions changes nothing in what is matched. -/
def repeatLast (items : List Item) (least : Nat) (greatest : Option Nat) : Read (List Item) := do
  match items with
  | [] => failure
  | item :: items =>
    if item.isSwitch then failure
    if (← peek) = some '?' then bump
    return ⟨item.regex.repeated least greatest, item.depth + 1, false⟩ :: items

def isNameChar (library : Library) (first : Bool) (c : Char) : Bool :=
  c == '_' || library.isLetter c ||
    (!first && (c == '.' || c == '[' || c == ']' || library.isNumeral c))

def groupName (library : Library) : Nat → List Char → Read Unit
  | 0, _ => failure
  | n + 1, taken => do
    let c ← need
    if c = '>' then
      bump
      let name := taken.reverse
      let s ← get
      if name = [] ∨ s.names.contains name then failure
      set { s with names := name :: s.names }
    else if isNameChar library taken.isEmpty c then
      bump
      groupName library n (c :: taken)
    else failure

/-- Flags up to the character after them, which is left. Says whether there was any. -/
def readFlags : Nat → List Char → Bool → Flags → Read (Flags × Bool)
  | 0, _, _, _ => failure
  | n + 1, seen, dangling, f => do
    let c ← need
    if c = ':' ∨ c = ')' then
      if dangling then failure else return (f, !seen.isEmpty)
    else if seen.contains c then failure
    else if c = '-' then
      bump
      readFlags n ('-' :: seen) true f
    else
      let some f := f.set? c (!seen.contains '-') | failure
      bump
      readFlags n (c :: seen) false f

/-- The start of a group, from its parenthesis on: the flags that hold inside, or only a switch. -/
def groupOpen (library : Library) : Read (Flags × Bool) := do
  bump
  space
  let s ← get
  let f := s.flags
  if ["?=", "?!", "?<=", "?<!"].any fun mark => mark.toList.isPrefixOf s.rest then failure
  else if (← take "?P<") then
    groupName library (s.rest.length + 1) []
    return (f, false)
  else if (← take "?<") then
    groupName library (s.rest.length + 1) []
    return (f, false)
  else if (← take "?") then
    let (f, given) ← readFlags (s.rest.length + 1) [] false f
    let finish ← need
    bump
    if finish = ')' then
      if given then return (f, true) else failure
    else return (f, false)
  else return (f, false)

def sequenceOf : List Item → Item
  | [] => ⟨.empty, 0, false⟩
  | [item] => item
  | items =>
    let rs := items.reverse.map Item.regex
    ⟨rs.dropLast.foldr .seq (rs.getLastD .empty),
      (items.map Item.depth).foldl max 0 + 1, false⟩

def choiceOf : List Item → Item
  | [] => ⟨.empty, 0, false⟩
  | [item] => item
  | items =>
    let rs := items.reverse.map Item.regex
    ⟨rs.dropLast.foldr .alt (rs.getLastD .empty),
      (items.map Item.depth).foldl max 0 + 1, false⟩

/-- The alternatives up to the end of the group or of the pattern, given those already read and the
items of the current one, each list last first. -/
def body (library : Library) : Nat → List Item → List Item → Read Item
  | 0, _, _ => failure
  | n + 1, branches, items => do
    space
    match ← peek with
    | none | some ')' => return choiceOf (sequenceOf items :: branches)
    | some '|' =>
      bump
      body library n (sequenceOf items :: branches) []
    | some '(' =>
      let outer ← flags
      let (inner, isSwitch) ← groupOpen library
      setFlags inner
      if isSwitch then body library n branches (⟨.empty, 0, true⟩ :: items)
      else
        let item ← body library n [] []
        expect ')'
        setFlags outer
        body library n branches (⟨.group item.regex, item.depth + 1, false⟩ :: items)
    | some '[' => body library n branches ((← bracketed library) :: items)
    | some '?' =>
      bump
      body library n branches (← repeatLast items 0 (some 1))
    | some '*' =>
      bump
      body library n branches (← repeatLast items 0 none)
    | some '+' =>
      bump
      body library n branches (← repeatLast items 1 none)
    | some '\x7b' =>
      let (least, greatest) ← counts
      body library n branches (← repeatLast items least greatest)
    | some _ => body library n branches ((← primitive library) :: items)

/-- The pattern at the start of a text, and what is left of the text. -/
def front? (library : Library) (text : String) : Option (Item × List Char) :=
  (body library (2 * text.length + 2) [] [] ⟨text.toList, .initial, []⟩).map fun r => (r.1, r.2.rest)

/-- The expression that a text denotes, if it is a pattern within the bounds of the library. -/
def read? (library : Library) (text : String) : Option Regex :=
  match front? library text with
  | some (item, []) => if library.fits text item then some item.regex else none
  | _ => none

end Worksheet.Pattern
