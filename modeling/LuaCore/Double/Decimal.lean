import LuaCore.Double.Basic

/-!
Decimal forms of binary64 numbers: the nearest number with a given count of digits, and the
shortest one that reads back. Reading takes a decimal to the nearest magnitude.
-/

namespace LuaCore

/-- The number `coefficient * 10 ^ exponent`. -/
structure Decimal where
  coefficient : Nat
  exponent : Int
  deriving DecidableEq

namespace Decimal

/-- How many digits a number has; zero has one. -/
def digitCount (n : Nat) : Nat :=
  if n < 10 then 1 else digitCount (n / 10) + 1
termination_by n
decreasing_by omega

/-- A decimal as a quotient of steps. -/
def stepQuotient (decimal : Decimal) : Nat × Nat :=
  if 0 ≤ decimal.exponent then
    (decimal.coefficient * Nat.pow 10 decimal.exponent.toNat * Double.stepsPerUnit, 1)
  else (decimal.coefficient * Double.stepsPerUnit, Nat.pow 10 (-decimal.exponent).toNat)

/-- The magnitude nearest to a decimal. Where the leading digit stands far beyond the range of
magnitudes the answer is known before any power of ten is computed. -/
def toMagnitude (decimal : Decimal) : Nat :=
  let leading := decimal.exponent + digitCount decimal.coefficient
  if decimal.coefficient = 0 ∨ leading < -400 then 0
  else if 400 < leading then Double.infinityBits
  else
    let quotient := decimal.stepQuotient
    Double.nearest quotient.1 quotient.2

/-- The exponent of the leading decimal digit of a positive magnitude. -/
def leadingExponent (bits : Nat) : Int :=
  digitCount (Double.steps bits * Nat.pow 10 324 / Double.stepsPerUnit) - 325

/-- A magnitude as a quotient of units of `10 ^ exponent`. -/
def unitQuotient (bits : Nat) (exponent : Int) : Nat × Nat :=
  if 0 ≤ exponent then (Double.steps bits, Double.stepsPerUnit * Nat.pow 10 exponent.toNat)
  else (Double.steps bits * Nat.pow 10 (-exponent).toNat, Double.stepsPerUnit)

/-- A positive magnitude rounded to a count of significant digits, a tie to the even digit. -/
def significant (count bits : Nat) : Decimal :=
  let exponent := leadingExponent bits - count + 1
  let quotient := unitQuotient bits exponent
  ⟨Double.roundDiv quotient.1 quotient.2, exponent⟩

/-- The two neighbours of a positive magnitude among the decimals with a count of digits, the
nearer one first. -/
def neighbours (count bits : Nat) : List Decimal :=
  let exponent := leadingExponent bits - count + 1
  let quotient := unitQuotient bits exponent
  let low := quotient.1 / quotient.2
  if Double.roundDiv quotient.1 quotient.2 = low then [⟨low, exponent⟩, ⟨low + 1, exponent⟩]
  else [⟨low + 1, exponent⟩, ⟨low, exponent⟩]

/-- A neighbour with a count of digits that reads back, the nearer one if both do. -/
def readsBack? (bits count : Nat) : Option Decimal :=
  (neighbours count bits).find? fun decimal => decimal.toMagnitude = bits

/-- The shortest decimal that reads back as a positive finite magnitude, and of those the nearest.
No magnitude has more than 1101 digits. -/
def shortest (bits : Nat) : Decimal :=
  ((List.range' 1 1100).findSome? (readsBack? bits)).getD (significant 1101 bits)

end Decimal

end LuaCore
