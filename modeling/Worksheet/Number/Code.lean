set_option autoImplicit false

/-!
# Codes of binary64 magnitudes

The non-negative binary64 values are numbered in increasing order by their bit patterns. `weight c`
is the value of code `c` in units of 2^-1074, so comparing a decimal with a value, or with the middle
of two neighbours, is exact arithmetic on naturals. A decimal rounds to the code in whose interval
it lies; an interval ends halfway to the neighbours, and its ends belong to it when the code is even.
-/
namespace Worksheet.Number

structure Decimal where
  digits : Nat
  exponent : Int
deriving DecidableEq, Repr

def binade : Nat := 4503599627370496

def signBit : Nat := 9223372036854775808

/-- The value of a code in units of 2^-1074. Infinity weighs what the next finite value would. -/
def weight (c : Nat) : Nat :=
  if c / binade = 0 then c % binade
  else (binade + c % binade) * Nat.pow 2 (c / binade - 1)

def infinity : Nat := 2047 * binade

def notANumber : Nat := infinity + binade / 2

/-- The order of a decimal and `h` units of 2^-1075. -/
def Decimal.compareHalves (d : Decimal) (h : Nat) : Ordering :=
  compare (d.digits * Nat.pow 10 d.exponent.toNat * Nat.pow 2 1075)
    (h * Nat.pow 10 (-d.exponent).toNat)

/-- The decimal lies at or above the lower end of the code's interval. -/
def Decimal.reaches (d : Decimal) (c : Nat) : Bool :=
  c == 0 ||
    match d.compareHalves (weight (c - 1) + weight c) with
    | .gt => true
    | .eq => c % 2 == 0
    | .lt => false

def Decimal.roundsTo (d : Decimal) (c : Nat) : Bool :=
  d.reaches c && !d.reaches (c + 1)

/-- The greatest number below `lo + 2 ^ n` that satisfies `p`, for a `p` that holds up to some point
and is false from there on; built bit by bit from `lo`. -/
def bisect (p : Nat → Bool) : Nat → Nat → Nat
  | 0, lo => lo
  | n + 1, lo => bisect p n (if p (lo + Nat.pow 2 n) then lo + Nat.pow 2 n else lo)

/-- The code that a decimal rounds to; what is too large for a finite code rounds to infinity.
The first two cases only keep the powers of ten small. -/
def Decimal.nearest (d : Decimal) : Nat :=
  if d.digits = 0 ∨ (d.digits.log2 + 1 : Int) + 3 * d.exponent < -1080 then 0
  else if 309 < d.exponent then infinity
  else bisect (fun c => decide (c ≤ infinity) && d.reaches c) 63 0

def ofCode (negative : Bool) (c : Nat) : Float :=
  Float.ofBits (UInt64.ofNat (c + if negative then signBit else 0))

def code (x : Float) : Nat := x.toBits.toNat % signBit

def isNegative (x : Float) : Bool := signBit ≤ x.toBits.toNat

def isFinite (x : Float) : Bool := code x < infinity

end Worksheet.Number
