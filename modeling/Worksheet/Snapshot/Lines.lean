import Worksheet.Snapshot.Basic
import Worksheet.Snapshot.Fault
import Worksheet.Text.Basic

set_option autoImplicit false

/-!
# The line format

One line for the version and one for each record, its name and its contents with a colon between them.
Exactly one space after the colon is dropped. Backslashes and line ends are escaped in the version and in
contents. Blank lines and comments may stand anywhere.
-/
namespace Worksheet.Lines
open Worksheet.Text

def escapeChar : Char → List Char
  | '\\' => ['\\', '\\']
  | '\n' => ['\\', 'n']
  | '\r' => ['\\', 'r']
  | c => [c]

def escape (cs : List Char) : List Char := cs.flatMap escapeChar

/-- Undo `escape`; a backslash before any other character stands for itself. -/
def unescape : List Char → List Char
  | [] => []
  | '\\' :: '\\' :: cs => '\\' :: unescape cs
  | '\\' :: 'n' :: cs => '\n' :: unescape cs
  | '\\' :: 'r' :: cs => '\r' :: unescape cs
  | '\\' :: c :: cs => '\\' :: c :: unescape cs
  | c :: cs => c :: unescape cs

theorem unescape_cons {c : Char} (h : c ≠ '\\') (cs : List Char) :
    unescape (c :: cs) = c :: unescape cs := by
  rw [unescape] <;> simp [h]

theorem unescape_escape (cs : List Char) : unescape (escape cs) = cs := by
  induction cs with
  | nil => rfl
  | cons c cs ih =>
    change unescape (escapeChar c ++ escape cs) = c :: cs
    unfold escapeChar
    split
    · simp [unescape, ih]
    · simp [unescape, ih]
    · simp [unescape, ih]
    · rename_i h _ _
      rw [List.singleton_append, unescape_cons h, ih]

def versionMark : List Char := "@version:".toList

/-- The value of a field: the text after its colon without one leading space, unescaped. -/
def fieldValue (cs : List Char) : String :=
  String.ofList (unescape (match cs with
    | ' ' :: cs => cs
    | cs => cs))

def version? (line : List Char) : Option String :=
  if versionMark.isPrefixOf line then some (fieldValue (line.drop versionMark.length)) else none

def isIgnorable (line : List Char) : Bool :=
  match trimList line with
  | [] => true
  | c :: _ => c == '#'

def record (line : List Char) : Except LineFault Record :=
  match line.dropWhile (· ≠ ':') with
  | [] => .error .noColon
  | _ :: contents =>
    match trimList (line.takeWhile (· ≠ ':')) with
    | [] => .error .noName
    | name => .ok ⟨String.ofList name, fieldValue contents⟩

/-- Read the lines from number `number` on, given the version and the records so far, last first. -/
def decodeFrom (number : Nat) (version : Option String) (records : List Record) :
    List (List Char) → Except DecodeError Snapshot
  | [] =>
    match version with
    | some v => .ok ⟨v, records.reverse⟩
    | none => .error .noVersion
  | line :: rest =>
    if isIgnorable line then decodeFrom (number + 1) version records rest
    else match version? line with
      | some v =>
        if version.isSome then .error (.atLine number .secondVersion)
        else decodeFrom (number + 1) (some v) records rest
      | none =>
        match record line with
        | .ok r => decodeFrom (number + 1) version (r :: records) rest
        | .error fault => .error (.atLine number fault)

def decode (text : String) : Except DecodeError Snapshot := decodeFrom 1 none [] (lines text.toList)

def decodeVersionFrom (number : Nat) (version : Option String) :
    List (List Char) → Except DecodeError String
  | [] =>
    match version with
    | some v => .ok v
    | none => .error .noVersion
  | line :: rest =>
    match version? line with
    | some v =>
      if version.isSome then .error (.atLine number .secondVersion)
      else decodeVersionFrom (number + 1) (some v) rest
    | none => decodeVersionFrom (number + 1) version rest

def decodeVersion (text : String) : Except DecodeError String :=
  decodeVersionFrom 1 none (lines text.toList)

def encodeRecord (r : Record) : List Char :=
  r.name.toList ++ ": ".toList ++ escape r.contents.toList ++ ['\n']

def encode (s : Snapshot) : String :=
  String.ofList ("# Tallysheet snapshot\n".toList ++ versionMark ++ ' ' :: escape s.version.toList ++
    ['\n'] ++ s.records.flatMap encodeRecord)

end Worksheet.Lines
