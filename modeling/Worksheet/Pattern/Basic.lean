import Worksheet.Pattern.CharClass

set_option autoImplicit false

/-!
# Patterns

A pattern is a regular expression with tests on the place between two characters. A match is found by
moving a set of positions through the expression, so the time is polynomial and no choice is undone.
-/
namespace Worksheet.Pattern

inductive WordEdge where
  | boundary
  | inside
  | start
  | finish
  | startHalf
  | finishHalf
deriving DecidableEq

/-- A test on the place between two characters. -/
inductive Look where
  | textStart
  | textEnd
  /-- After a line feed, or after any line end when carriage returns count. -/
  | lineStart (returns : Bool)
  | lineEnd (returns : Bool)
  | word (letters : CharClass) (edge : WordEdge)

def Look.holds (before after : Option Char) : Look → Bool
  | textStart => before.isNone
  | textEnd => after.isNone
  | lineStart returns =>
    before.isNone || before == some '\n' ||
      (returns && before == some '\r' && after != some '\n')
  | lineEnd returns =>
    after.isNone || (if returns then after == some '\r' || (after == some '\n' && before != some '\r')
      else after == some '\n')
  | word letters edge =>
    let left := (before.map fun c => letters c.toNat).getD false
    let right := (after.map fun c => letters c.toNat).getD false
    match edge with
    | .boundary => left != right
    | .inside => left == right
    | .start => !left && right
    | .finish => left && !right
    | .startHalf => !left
    | .finishHalf => !right

/-- A regular expression. A repetition has a least count and perhaps a greatest. -/
inductive Regex where
  | empty
  | oneOf (cls : CharClass)
  | look (test : Look)
  | group (r : Regex)
  | seq (r s : Regex)
  | alt (r s : Regex)
  | times (r : Regex) (least : Nat) (greatest : Option Nat)

namespace Regex

def exactly (step : List Nat → List Nat) : Nat → List Nat → List Nat
  | 0, ps => ps
  | n + 1, ps => if ps = [] then [] else exactly step n (step ps)

/-- Apply a step up to a number of times, and keep all positions on the way. -/
def upTo (step : List Nat → List Nat) : Nat → List Nat → List Nat
  | 0, ps => ps
  | n + 1, ps =>
    let new := (step ps).filter fun p => !ps.contains p
    if new = [] then ps else upTo step n (ps ++ new.eraseDups)

def before (text : Array Char) (p : Nat) : Option Char := if p = 0 then none else text[p - 1]?

/-- The positions at which matches that begin at one of the given positions end. -/
def advance (text : Array Char) : Regex → List Nat → List Nat
  | empty, ps => ps
  | oneOf cls, ps =>
    ps.filterMap fun p =>
      match text[p]? with
      | some c => if cls c.toNat then some (p + 1) else none
      | none => none
  | look test, ps => ps.filter fun p => test.holds (before text p) text[p]?
  | group r, ps => advance text r ps
  | seq r s, ps => advance text s (advance text r ps)
  | alt r s, ps => (advance text r ps ++ advance text s ps).eraseDups
  | times r least greatest, ps =>
    let ps := exactly (advance text r) least ps
    upTo (advance text r)
      (match greatest with
        | some n => n - least
        | none => text.size + 1) ps

def occursIn (r : Regex) (text : String) : Bool :=
  let cs := text.toList.toArray
  !(r.advance cs (List.range (cs.size + 1))).isEmpty

def isEmptyWidth : Regex → Bool
  | empty | look _ => true
  | oneOf _ => false
  | group r => r.isEmptyWidth
  | seq r s | alt r s => r.isEmptyWidth && s.isEmptyWidth
  | times r _ greatest => r.isEmptyWidth || greatest == some 0

/-- A repetition, with repetitions of nothing cut down to one. -/
def repeated (r : Regex) (least : Nat) (greatest : Option Nat) : Regex :=
  if greatest = some 0 then empty
  else if r.isEmptyWidth then times r (min least 1) (some 1)
  else times r least greatest

end Regex
end Worksheet.Pattern
