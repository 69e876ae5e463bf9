/-!
Binary64 numbers by exact arithmetic. Every finite magnitude is a whole number of steps of
2^-1074, and its bit pattern, read as a natural number, is its place in the order of magnitudes.
Rounding takes a quotient of natural numbers to the nearest magnitude, a tie to the even pattern.
-/

namespace LuaCore.Double

/-- The pattern of infinity, the first one above the finite magnitudes. -/
def infinityBits : Nat := 2047 * Nat.pow 2 52

/-- A whole number is this many steps times its value. -/
def stepsPerUnit : Nat := Nat.pow 2 1074

/-- The bit pattern without the sign. -/
def magnitude (x : Float) : Nat :=
  x.toBits.toNat % Nat.pow 2 63

def isNegative (x : Float) : Bool :=
  Nat.pow 2 63 ≤ x.toBits.toNat

def isFinite (x : Float) : Bool :=
  magnitude x < infinityBits

def isInfinite (x : Float) : Bool :=
  magnitude x = infinityBits

/-- The number with a given pattern and no sign. -/
def ofMagnitude (bits : Nat) : Float :=
  Float.ofBits (UInt64.ofNat bits)

/-- A magnitude as a number of steps: below 2^53 the pattern itself, above it a significand that
is doubled once for each further exponent. -/
def steps (bits : Nat) : Nat :=
  let exponent := bits / Nat.pow 2 52
  if exponent = 0 then bits
  else (Nat.pow 2 52 + bits % Nat.pow 2 52) * Nat.pow 2 (exponent - 1)

/-- The whole number nearest to a quotient, a tie to the even one. -/
def roundDiv (numerator denominator : Nat) : Nat :=
  let low := numerator / denominator
  let rest := 2 * (numerator % denominator)
  if rest < denominator ∨ (rest = denominator ∧ low % 2 = 0) then low else low + 1

/-- The magnitude nearest to `numerator / denominator` steps. -/
def nearest (numerator denominator : Nat) : Nat :=
  let doublings := (numerator / denominator).log2 - 52
  let significand := roundDiv numerator (denominator * Nat.pow 2 doublings)
  min (doublings * Nat.pow 2 52 + significand) infinityBits

/-- The magnitude nearest to a natural number. -/
def nearestNat (n : Nat) : Nat :=
  nearest (n * stepsPerUnit) 1

/-- The exact value of a finite number without a fractional part. -/
def toInt? (x : Float) : Option Int :=
  let count := steps (magnitude x)
  if isFinite x ∧ count % stepsPerUnit = 0 then
    let whole : Int := (count / stepsPerUnit : Nat)
    some (if isNegative x then -whole else whole)
  else none

end LuaCore.Double
