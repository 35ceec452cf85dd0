import Worksheet.Number.Code

set_option autoImplicit false

/-!
# The shortest decimal of a code

Among the decimals that round to a code, `shortest` takes one on the coarsest grid of multiples of a
power of ten, hence with the fewest digits. Two candidates can remain, the neighbours of the value on
that grid: the nearer one is taken, and the upper one when they are equally near.
-/
namespace Worksheet.Number

/-- The multiple of `10 ^ g` next to the value of code `c` that rounds to `c`, if there is one. -/
def onGrid (c : Nat) (g : Int) : Option Decimal :=
  let num := weight c * Nat.pow 10 (-g).toNat
  let den := Nat.pow 2 1074 * Nat.pow 10 g.toNat
  let lower : Decimal := ⟨num / den, g⟩
  let upper : Decimal := ⟨num / den + 1, g⟩
  if lower.roundsTo c then
    if upper.roundsTo c && decide (den ≤ 2 * (num % den)) then some upper else some lower
  else if upper.roundsTo c then some upper
  else none

def exact (c : Nat) : Decimal := ⟨weight c * Nat.pow 5 1074, -1074⟩

/-- The first hit on the grids `10 ^ g`, `10 ^ (g - 1)`, and so on. -/
def coarsest (c : Nat) : Nat → Int → Decimal
  | 0, _ => exact c
  | n + 1, g =>
    match onGrid c g with
    | some d => d
    | none => coarsest c n (g - 1)

/-- An exponent of ten above the value of code `c`. -/
def topGrid (c : Nat) : Int := (((weight c).log2 : Int) - 1073) * 30103 / 100000 + 2

def shortest (c : Nat) : Decimal :=
  if weight c = 0 then ⟨0, 0⟩ else coarsest c 30 (topGrid c)

end Worksheet.Number
