import Worksheet.Toml.Basic

set_option autoImplicit false

/-!
# Reading configuration documents

Statements stand on lines of their own, with comments and blank lines between them. Strings are basic or
literal, on one line or on several; integers are decimal, hexadecimal, octal or binary, and have 64 bits.
-/
namespace Worksheet.Toml

abbrev Read := StateT (List Char) Option

namespace Read

def rest : Read (List Char) := get

def take (text : List Char) : Read Bool := do
  let cs ← get
  if text.isPrefixOf cs then
    set (cs.drop text.length)
    return true
  else return false

def expect (text : List Char) : Read Unit := do
  if ← take text then return () else failure

def takeWhile (p : Char → Bool) : Read (List Char) := do
  let cs ← get
  set (cs.dropWhile p)
  return cs.takeWhile p

def blanks : Read Unit := do
  let _ ← takeWhile fun c => c == ' ' || c == '\t'

def newline : Read Bool := do
  if ← take ['\n'] then return true else take ['\r', '\n']

end Read

open Read

/-- Tabs and characters that show may stand in comments and strings. -/
def isPlain (c : Char) : Bool := c == '\t' || (decide (0x20 ≤ c.toNat) && c.toNat != 0x7f)

def comment : Read Unit := do
  if ← take ['#'] then
    let _ ← takeWhile isPlain

/-- Blanks, a comment, and a line end or the end of the document. -/
def lineEnd : Read Unit := do
  blanks
  comment
  if (← rest) = [] then return ()
  if ← newline then return () else failure

def hexDigit? (c : Char) : Option Nat :=
  if c.isDigit then some (c.toNat - 48)
  else if 'a' ≤ c ∧ c ≤ 'f' then some (c.toNat - 87)
  else if 'A' ≤ c ∧ c ≤ 'F' then some (c.toNat - 55)
  else none

def numbered (cs : List Char) (digits : Nat) : Option (Char × List Char) := do
  let ds ← (cs.take digits).mapM hexDigit?
  let n := ds.foldl (fun n d => 16 * n + d) 0
  if ds.length = digits ∧ n.isValidChar then some (Char.ofNat n, cs.drop digits) else none

/-- The character of an escape after its backslash, and what follows. -/
def unescape : List Char → Option (Char × List Char)
  | 'b' :: cs => some ('\x08', cs)
  | 't' :: cs => some ('\t', cs)
  | 'n' :: cs => some ('\n', cs)
  | 'f' :: cs => some ('\x0c', cs)
  | 'r' :: cs => some ('\r', cs)
  | '"' :: cs => some ('"', cs)
  | '\\' :: cs => some ('\\', cs)
  | 'u' :: cs => numbered cs 4
  | 'U' :: cs => numbered cs 8
  | _ => none

/-- A basic string after its opening quote, read from `cs` in at most `fuel` steps. -/
def basicString : Nat → List Char → List Char → Option (String × List Char)
  | 0, _, _ => none
  | fuel + 1, taken, cs =>
    match cs with
    | '"' :: cs => some (String.ofList taken.reverse, cs)
    | '\\' :: cs => do
      let (c, cs) ← unescape cs
      basicString fuel (c :: taken) cs
    | c :: cs => if isPlain c then basicString fuel (c :: taken) cs else none
    | [] => none

def literalString (cs : List Char) : Option (String × List Char) :=
  let inside := cs.takeWhile fun c => c != '\'' && isPlain c
  match cs.drop inside.length with
  | '\'' :: cs => some (String.ofList inside, cs)
  | _ => none

/-- The quotes at the start close a string of several lines; up to two of them belong to it. -/
def closing (quote : Char) (taken : List Char) (cs : List Char) : Option (String × List Char) :=
  let n := (cs.takeWhile (· == quote)).length
  if 3 ≤ n ∧ n ≤ 5 then
    some (String.ofList (List.replicate (n - 3) quote ++ taken).reverse, cs.drop n)
  else none

/-- Blanks up to the end of the line, then all blank lines after it and the blanks after those. -/
def lineContinuation (cs : List Char) : Option (List Char) :=
  let isGap (c : Char) : Bool := c == ' ' || c == '\t'
  match cs.dropWhile isGap with
  | '\n' :: cs => some (skip cs)
  | '\r' :: '\n' :: cs => some (skip cs)
  | _ => none
where
  skip : List Char → List Char
    | ' ' :: cs => skip cs
    | '\t' :: cs => skip cs
    | '\n' :: cs => skip cs
    | '\r' :: '\n' :: cs => skip cs
    | cs => cs

/-- The inside of a string of several lines, with escapes when its quotes are double. -/
def multiLine (quote : Char) : Nat → List Char → List Char → Option (String × List Char)
  | 0, _, _ => none
  | fuel + 1, taken, cs =>
    if [quote, quote, quote].isPrefixOf cs then closing quote taken cs
    else match cs with
      | [] => none
      | '\r' :: '\n' :: cs => multiLine quote fuel ('\n' :: taken) cs
      | '\n' :: cs => multiLine quote fuel ('\n' :: taken) cs
      | c :: cs =>
        if c = '\\' ∧ quote = '"' then
          match unescape cs with
          | some (c, cs) => multiLine quote fuel (c :: taken) cs
          | none => do multiLine quote fuel taken (← lineContinuation cs)
        else if isPlain c then multiLine quote fuel (c :: taken) cs
        else none

def firstLine : List Char → List Char
  | '\n' :: cs => cs
  | '\r' :: '\n' :: cs => cs
  | cs => cs

def string? (cs : List Char) : Option (String × List Char) :=
  match cs with
  | '"' :: '"' :: '"' :: cs => multiLine '"' (cs.length + 1) [] (firstLine cs)
  | '\'' :: '\'' :: '\'' :: cs => multiLine '\'' (cs.length + 1) [] (firstLine cs)
  | '"' :: cs => basicString (cs.length + 1) [] cs
  | '\'' :: cs => literalString cs
  | _ => none

def digitGroups? (digit? : Char → Option Nat) (cs : List Char) : Option (List Nat) :=
  match cs with
  | [] => none
  | [c] => (digit? c).map fun d => [d]
  | c :: '_' :: cs => do return (← digit? c) :: (← digitGroups? digit? cs)
  | c :: cs => do return (← digit? c) :: (← digitGroups? digit? cs)

def inBase? (base : Nat) (cs : List Char) : Option Nat :=
  let digit? (c : Char) : Option Nat := (hexDigit? c).filter (· < base)
  (digitGroups? digit? cs).map fun ds => ds.foldl (fun n d => base * n + d) 0

/-- A decimal integer has no leading zero. -/
def decimal? (cs : List Char) : Option Nat :=
  match cs with
  | '0' :: _ :: _ => none
  | _ => inBase? 10 cs

def integer? (cs : List Char) : Option Int :=
  let n? : Option Int :=
    match cs with
    | '0' :: 'x' :: cs => (inBase? 16 cs).map Int.ofNat
    | '0' :: 'o' :: cs => (inBase? 8 cs).map Int.ofNat
    | '0' :: 'b' :: cs => (inBase? 2 cs).map Int.ofNat
    | '+' :: cs => (decimal? cs).map Int.ofNat
    | '-' :: cs => (decimal? cs).map fun n => -Int.ofNat n
    | cs => (decimal? cs).map Int.ofNat
  n?.filter fun n => decide (-9223372036854775808 ≤ n) && decide (n < 9223372036854775808)

def isBareKeyChar (c : Char) : Bool := c.isAlphanum || c == '_' || c == '-'

def key : Read String := do
  match ← rest with
  | '"' :: cs =>
    let some (s, cs) := basicString (cs.length + 1) [] cs | failure
    set cs
    return s
  | '\'' :: cs =>
    let some (s, cs) := literalString cs | failure
    set cs
    return s
  | _ =>
    let cs ← takeWhile isBareKeyChar
    if cs = [] then failure else return String.ofList cs

def path : Nat → Read (List String)
  | 0 => failure
  | n + 1 => do
    blanks
    let k ← key
    blanks
    if ← take ['.'] then return k :: (← path n) else return [k]

def gap : Nat → Read Unit
  | 0 => failure
  | n + 1 => do
    blanks
    comment
    if ← newline then gap n else return ()

/-- A value, read to the given depth of inline tables. -/
def value : Nat → Read Value
  | 0 => failure
  | n + 1 => do
    let cs ← rest
    match string? cs with
    | some (s, cs) =>
      set cs
      return .string s
    | none =>
      if ← take ['['] then
        gap (cs.length + 1)
        expect [']']
        return .emptyArray
      else if ← take ['\x7b'] then
        blanks
        if ← take ['\x7d'] then return .inline none
        let k ← key
        blanks
        expect ['=']
        blanks
        let v ← value n
        blanks
        expect ['\x7d']
        return .inline (some (k, v))
      else
        let some i := integer? (← takeWhile fun c => isBareKeyChar c || c == '+') | failure
        return .integer i

def statements : Nat → Read (List Statement)
  | 0 => failure
  | n + 1 => do
    blanks
    match ← rest with
    | [] => return []
    | '[' :: cs =>
      set cs
      let keys ← path (cs.length + 1)
      expect [']']
      lineEnd
      return .header keys :: (← statements n)
    | '#' :: _ | '\n' :: _ | '\r' :: _ =>
      lineEnd
      statements n
    | cs =>
      let keys ← path (cs.length + 1)
      expect ['=']
      blanks
      let v ← value (cs.length + 1)
      lineEnd
      return .assign keys v :: (← statements n)

/-- The entries of a document text. A byte order mark may come first. -/
def read? (s : String) : Option Entries :=
  let cs := match s.toList with
    | '\ufeff' :: cs => cs
    | cs => cs
  match statements (cs.length + 1) cs with
  | some (ss, _) => build ss
  | none => none

end Worksheet.Toml
