import Worksheet.Pattern.Library
import Worksheet.Text.Category

set_option autoImplicit false

/-!
# A library of general categories

The tables of characters behind the patterns that are run: simple case folding, and the general categories
with the classes made of them. No other property is known. The bound on sizes is an estimate.
-/
namespace Worksheet.Pattern
open Worksheet.Text

/-- Characters that differ only in case fold to one character. A word `s.n.d.t` says that the `n`
characters from `s` on, at distance `d`, fold to the characters from `t` on, at the same distance. -/
def foldingWords : String :=
  "41.1a.1.61 b5.1.1.3bc c0.17.1.e0 d8.7.1.f8 100.18.2.101 132.3.2.133 139.8.2.13a 14a.17.2.14b
178.1.1.ff 179.3.2.17a 17f.1.1.73 181.1.1.253 182.2.2.183 186.1.1.254 187.1.1.188 189.2.1.256
18b.1.1.18c 18e.1.1.1dd 18f.1.1.259 190.1.1.25b 191.1.1.192 193.1.1.260 194.1.1.263 196.1.1.269
197.1.1.268 198.1.1.199 19c.1.1.26f 19d.1.1.272 19f.1.1.275 1a0.3.2.1a1 1a6.1.1.280 1a7.1.1.1a8
1a9.1.1.283 1ac.1.1.1ad 1ae.1.1.288 1af.1.1.1b0 1b1.2.1.28a 1b3.2.2.1b4 1b7.1.1.292 1b8.1.1.1b9
1bc.1.1.1bd 1c4.1.1.1c6 1c5.1.1.1c6 1c7.1.1.1c9 1c8.1.1.1c9 1ca.1.1.1cc 1cb.9.2.1cc 1de.9.2.1df
1f1.1.1.1f3 1f2.2.2.1f3 1f6.1.1.195 1f7.1.1.1bf 1f8.14.2.1f9 220.1.1.19e 222.9.2.223 23a.1.1.2c65
23b.1.1.23c 23d.1.1.19a 23e.1.1.2c66 241.1.1.242 243.1.1.180 244.1.1.289 245.1.1.28c 246.5.2.247
345.1.1.3b9 370.2.2.371 376.1.1.377 37f.1.1.3f3 386.1.1.3ac 388.3.1.3ad 38c.1.1.3cc 38e.2.1.3cd
391.11.1.3b1 3a3.9.1.3c3 3c2.1.1.3c3 3cf.1.1.3d7 3d0.1.1.3b2 3d1.1.1.3b8 3d5.1.1.3c6 3d6.1.1.3c0
3d8.c.2.3d9 3f0.1.1.3ba 3f1.1.1.3c1 3f4.1.1.3b8 3f5.1.1.3b5 3f7.1.1.3f8 3f9.1.1.3f2 3fa.1.1.3fb
3fd.3.1.37b 400.10.1.450 410.20.1.430 460.11.2.461 48a.1b.2.48b 4c0.1.1.4cf 4c1.7.2.4c2 4d0.30.2.4d1
531.26.1.561 10a0.26.1.2d00 10c7.1.1.2d27 10cd.1.1.2d2d 13f8.6.1.13f0 1c80.1.1.432 1c81.1.1.434
1c82.1.1.43e 1c83.2.1.441 1c85.1.1.442 1c86.1.1.44a 1c87.1.1.463 1c88.1.1.a64b 1c89.1.1.1c8a
1c90.2b.1.10d0 1cbd.3.1.10fd 1e00.4b.2.1e01 1e9b.1.1.1e61 1e9e.1.1.df 1ea0.30.2.1ea1 1f08.8.1.1f00
1f18.6.1.1f10 1f28.8.1.1f20 1f38.8.1.1f30 1f48.6.1.1f40 1f59.4.2.1f51 1f68.8.1.1f60 1f88.8.1.1f80
1f98.8.1.1f90 1fa8.8.1.1fa0 1fb8.2.1.1fb0 1fba.2.1.1f70 1fbc.1.1.1fb3 1fbe.1.1.3b9 1fc8.4.1.1f72
1fcc.1.1.1fc3 1fd8.2.1.1fd0 1fda.2.1.1f76 1fe8.2.1.1fe0 1fea.2.1.1f7a 1fec.1.1.1fe5 1ff8.2.1.1f78
1ffa.2.1.1f7c 1ffc.1.1.1ff3 2126.1.1.3c9 212a.1.1.6b 212b.1.1.e5 2132.1.1.214e 2160.10.1.2170
2183.1.1.2184 24b6.1a.1.24d0 2c00.30.1.2c30 2c60.1.1.2c61 2c62.1.1.26b 2c63.1.1.1d7d 2c64.1.1.27d
2c67.3.2.2c68 2c6d.1.1.251 2c6e.1.1.271 2c6f.1.1.250 2c70.1.1.252 2c72.1.1.2c73 2c75.1.1.2c76
2c7e.2.1.23f 2c80.32.2.2c81 2ceb.2.2.2cec 2cf2.1.1.2cf3 a640.17.2.a641 a680.e.2.a681 a722.7.2.a723
a732.1f.2.a733 a779.2.2.a77a a77d.1.1.1d79 a77e.5.2.a77f a78b.1.1.a78c a78d.1.1.265 a790.2.2.a791
a796.a.2.a797 a7aa.1.1.266 a7ab.1.1.25c a7ac.1.1.261 a7ad.1.1.26c a7ae.1.1.26a a7b0.1.1.29e
a7b1.1.1.287 a7b2.1.1.29d a7b3.1.1.ab53 a7b4.8.2.a7b5 a7c4.1.1.a794 a7c5.1.1.282 a7c6.1.1.1d8e
a7c7.2.2.a7c8 a7cb.1.1.264 a7cc.1.1.a7cd a7d0.1.1.a7d1 a7d6.3.2.a7d7 a7dc.1.1.19b a7f5.1.1.a7f6
ab70.50.1.13a0 ff21.1a.1.ff41 10400.28.1.10428 104b0.24.1.104d8 10570.13.2.10597 10571.5.2.10598
1057d.7.2.105a4 1058d.3.2.105b4 10595.1.1.105bc 10c80.33.1.10cc0 10d50.16.1.10d70 118a0.20.1.118c0
16e40.20.1.16e60 1e900.22.1.1e922"

def foldings : List (Nat × Nat) :=
  (words foldingWords).flatMap fun w =>
    match (w.splitOn '.').map hexValue with
    | [source, count, distance, target] =>
      (List.range count).map fun k => (source + k * distance, target + k * distance)
    | _ => []

def fold (n : Nat) : Nat := (foldings.lookup n).getD n

/-- The class with all characters that fold as a member does. -/
def CharClass.caseClosure (a : CharClass) : CharClass := fun n =>
  let f := fold n
  a n || a f || foldings.any fun e => e.2 == f && a e.1

def ofCategories (ks : List Category) : CharClass := fun n => ks.contains (category (Char.ofNat n))

def letterCategories : List Category := [.lu, .ll, .lt, .lm, .lo]

def markCategories : List Category := [.mn, .mc, .me]

/-- The alphabetic characters that are neither letters nor letter numbers. -/
def alphabeticWords : String :=
  "345 363-36f 5b0-5bd 5bf 5c1-5c2 5c4-5c5 5c7 610-61a 64b-657 659-65f 670 6d6-6dc 6e1-6e4 6e7-6e8
6ed 711 730-73f 7a6-7b0 816-817 81b-823 825-827 829-82c 897 8d4-8df 8e3-8e9 8f0-903 93a-93b 93e-94c
94e-94f 955-957 962-963 981-983 9be-9c4 9c7-9c8 9cb-9cc 9d7 9e2-9e3 a01-a03 a3e-a42 a47-a48 a4b-a4c
a51 a70-a71 a75 a81-a83 abe-ac5 ac7-ac9 acb-acc ae2-ae3 afa-afc b01-b03 b3e-b44 b47-b48 b4b-b4c
b56-b57 b62-b63 b82 bbe-bc2 bc6-bc8 bca-bcc bd7 c00-c04 c3e-c44 c46-c48 c4a-c4c c55-c56 c62-c63
c81-c83 cbe-cc4 cc6-cc8 cca-ccc cd5-cd6 ce2-ce3 cf3 d00-d03 d3e-d44 d46-d48 d4a-d4c d57 d62-d63
d81-d83 dcf-dd4 dd6 dd8-ddf df2-df3 e31 e34-e3a e4d eb1 eb4-eb9 ebb-ebc ecd f71-f83 f8d-f97 f99-fbc
102b-1036 1038 103b-103e 1056-1059 105e-1060 1062-1064 1067-106d 1071-1074 1082-108d 108f 109a-109d
1712-1713 1732-1733 1752-1753 1772-1773 17b6-17c8 1885-1886 18a9 1920-192b 1930-1938 1a17-1a1b
1a55-1a5e 1a61-1a74 1abf-1ac0 1acc-1ace 1b00-1b04 1b35-1b43 1b80-1b82 1ba1-1ba9 1bac-1bad 1be7-1bf1
1c24-1c36 1dd3-1df4 24b6-24e9 2de0-2dff a674-a67b a69e-a69f a802 a80b a823-a827 a880-a881 a8b4-a8c3
a8c5 a8ff a926-a92a a947-a952 a980-a983 a9b4-a9bf a9e5 aa29-aa36 aa43 aa4c-aa4d aa7b-aa7d aab0
aab2-aab4 aab7-aab8 aabe aaeb-aaef aaf5 abe3-abea fb1e 10376-1037a 10a01-10a03 10a05-10a06
10a0c-10a0f 10d24-10d27 10d69 10eab-10eac 10efc 11000-11002 11038-11045 11073-11074 11080-11082
110b0-110b8 110c2 11100-11102 11127-11132 11145-11146 11180-11182 111b3-111bf 111ce-111cf
1122c-11234 11237 1123e 11241 112df-112e8 11300-11303 1133e-11344 11347-11348 1134b-1134c 11357
11362-11363 113b8-113c0 113c2 113c5 113c7-113ca 113cc-113cd 11435-11441 11443-11445 114b0-114c1
115af-115b5 115b8-115be 115dc-115dd 11630-1163e 11640 116ab-116b5 1171d-1172a 1182c-11838
11930-11935 11937-11938 1193b-1193c 11940 11942 119d1-119d7 119da-119df 119e4 11a01-11a0a
11a35-11a39 11a3b-11a3e 11a51-11a5b 11a8a-11a97 11c2f-11c36 11c38-11c3e 11c92-11ca7 11ca9-11cb6
11d31-11d36 11d3a 11d3c-11d3d 11d3f-11d41 11d43 11d47 11d8a-11d8e 11d90-11d91 11d93-11d96
11ef3-11ef6 11f00-11f01 11f03 11f34-11f3a 11f3e-11f40 1611e-1612e 16f4f 16f51-16f87 16f8f-16f92
16ff0-16ff1 1bc9e 1e000-1e006 1e008-1e018 1e01b-1e021 1e023-1e024 1e026-1e02a 1e08f 1e947
1f130-1f149 1f150-1f169 1f170-1f189"

def alphabeticRanges : List (Nat × Nat) := rangesOf alphabeticWords

def alphabetic : CharClass :=
  (ofCategories (.nl :: letterCategories)).union (within alphabeticRanges)

/-- Letters, marks, decimal digits, connectors and the two joiners. -/
def word : CharClass :=
  alphabetic.union ((ofCategories (.nd :: .pc :: markCategories)).union (within [(0x200c, 0x200d)]))

/-- General categories and their groups, by abbreviation or full name without separators. -/
def categoryClass? : String → Option CharClass
  | "any" => some fun _ => true
  | "assigned" => some (ofCategories [.cn]).negate
  | "ascii" => some (within [(0x0, 0x7f)])
  | "l" | "letter" => some (ofCategories letterCategories)
  | "lc" | "casedletter" => some (ofCategories [.lu, .ll, .lt])
  | "lu" | "uppercaseletter" => some (ofCategories [.lu])
  | "ll" | "lowercaseletter" => some (ofCategories [.ll])
  | "lt" | "titlecaseletter" => some (ofCategories [.lt])
  | "lm" | "modifierletter" => some (ofCategories [.lm])
  | "lo" | "otherletter" => some (ofCategories [.lo])
  | "m" | "mark" | "combiningmark" => some (ofCategories markCategories)
  | "mn" | "nonspacingmark" => some (ofCategories [.mn])
  | "mc" | "spacingmark" => some (ofCategories [.mc])
  | "me" | "enclosingmark" => some (ofCategories [.me])
  | "n" | "number" => some (ofCategories [.nd, .nl, .no])
  | "nd" | "decimalnumber" | "digit" => some (ofCategories [.nd])
  | "nl" | "letternumber" => some (ofCategories [.nl])
  | "no" | "othernumber" => some (ofCategories [.no])
  | "p" | "punctuation" | "punct" => some (ofCategories [.pc, .pd, .ps, .pe, .pi, .pf, .po])
  | "pc" | "connectorpunctuation" => some (ofCategories [.pc])
  | "pd" | "dashpunctuation" => some (ofCategories [.pd])
  | "ps" | "openpunctuation" => some (ofCategories [.ps])
  | "pe" | "closepunctuation" => some (ofCategories [.pe])
  | "pi" | "initialpunctuation" => some (ofCategories [.pi])
  | "pf" | "finalpunctuation" => some (ofCategories [.pf])
  | "po" | "otherpunctuation" => some (ofCategories [.po])
  | "s" | "symbol" => some (ofCategories [.sm, .sc, .sk, .so])
  | "sm" | "mathsymbol" => some (ofCategories [.sm])
  | "sc" | "currencysymbol" => some (ofCategories [.sc])
  | "sk" | "modifiersymbol" => some (ofCategories [.sk])
  | "so" | "othersymbol" => some (ofCategories [.so])
  | "z" | "separator" => some (ofCategories [.zs, .zl, .zp])
  | "zs" | "spaceseparator" => some (ofCategories [.zs])
  | "zl" | "lineseparator" => some (ofCategories [.zl])
  | "zp" | "paragraphseparator" => some (ofCategories [.zp])
  | "c" | "other" => some (ofCategories [.cc, .cf, .cs, .co, .cn])
  | "cc" | "control" | "cntrl" => some (ofCategories [.cc])
  | "cf" | "format" => some (ofCategories [.cf])
  | "cs" | "surrogate" => some (ofCategories [.cs])
  | "co" | "privateuse" => some (ofCategories [.co])
  | "cn" | "unassigned" => some (ofCategories [.cn])
  | _ => Option.none

/-- Property names are compared without case, separators, and a leading `is`. -/
def looseName (cs : List Char) : String :=
  let rest : List Char := match cs with
    | 'i' :: 's' :: rest | 'I' :: 'S' :: rest | 'i' :: 'S' :: rest | 'I' :: 's' :: rest => rest
    | _ => cs
  let kept : List Char := (rest.filter fun c => decide (c.toNat < 128) && !(" _-".toList.contains c)).map
    Char.toLower
  if rest.length < cs.length ∧ kept = ['c'] then "isc" else String.ofList kept

def propertyClass? : Property → Option CharClass
  | .letter c => categoryClass? (String.singleton c.toLower)
  | .named name => categoryClass? (looseName name)
  | .valued name value =>
    if looseName name = "gc" ∨ looseName name = "generalcategory" then categoryClass? (looseName value)
    else none

namespace Regex

/-- The number of tests in an expression with its repetitions written out. -/
def size : Regex → Nat
  | empty | oneOf _ | look _ => 1
  | group r => r.size + 2
  | seq r s => r.size + s.size
  | alt r s => r.size + s.size + 1
  | times r least greatest =>
    match greatest with
    | none => max least 1 * r.size + 1
    | some n => max least n * (r.size + 1)

def maxSize : Nat := 262144

end Regex

def maxDepth : Nat := 250

def Library.basic : Library where
  property? := propertyClass?
  digit n := isDecimalDigit (Char.ofNat n)
  blank := within blankRanges
  word := Pattern.word
  caseClosure := CharClass.caseClosure
  isLetter c := alphabetic c.toNat
  isNumeral c := ofCategories [.nd, .nl, .no] c.toNat
  fits _ item := decide (item.depth ≤ maxDepth) && decide (item.regex.size ≤ Regex.maxSize)
  complaint _ := "regex parse error"

end Worksheet.Pattern
