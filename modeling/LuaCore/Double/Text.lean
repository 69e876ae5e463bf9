import LuaCore.Double.Decimal

/-!
The written forms of numbers. Both forms write exponents in a middle range positionally and the
others with a signed exponent of two digits at least; they differ in the digits they choose, in
where the range ends, and in whether a whole number keeps its point.
-/

namespace LuaCore.Double

structure Style where
  /-- The first exponent that is not written positionally. -/
  limit : Int
  /-- Whether a whole number is written with a point and a zero. -/
  keepsPoint : Bool

/-- Digits before the point, padded with zeros, and digits after it. -/
def positional (keepsPoint : Bool) (digits : List Char) (leading : Int) : List Char :=
  if leading < 0 then
    '0' :: '.' :: List.replicate (-leading - 1).toNat '0' ++ digits
  else
    let width := leading.toNat + 1
    let whole := digits.take width ++ List.replicate (width - digits.length) '0'
    match digits.drop width with
    | [] => if keepsPoint then whole ++ ['.', '0'] else whole
    | fraction => whole ++ '.' :: fraction

/-- One digit before the point, the others after it, and the exponent. -/
def scientific (digits : List Char) (leading : Int) : List Char :=
  let exponent := Nat.toDigits 10 leading.natAbs
  let padded := List.replicate (2 - exponent.length) '0' ++ exponent
  let significand := match digits with
    | first :: next :: rest => first :: '.' :: next :: rest
    | short => short
  significand ++ 'e' :: (if leading < 0 then '-' else '+') :: padded

def dropTrailingZeros (digits : List Char) : List Char :=
  (digits.reverse.dropWhile (· == '0')).reverse

/-- A positive decimal, its trailing zeros left out. -/
def layout (style : Style) (decimal : Decimal) : List Char :=
  let digits := Nat.toDigits 10 decimal.coefficient
  let leading : Int := decimal.exponent + digits.length - 1
  let shown := dropTrailingZeros digits
  if -4 ≤ leading ∧ leading < style.limit then positional style.keepsPoint shown leading
  else scientific shown leading

/-- A number in a style, with its digits chosen by `decimal`. A number that is none has no sign. -/
def format (style : Style) (decimal : Nat → Decimal) (x : Float) : List Char :=
  let bits := magnitude x
  if infinityBits < bits then ['n', 'a', 'n']
  else
    let shown :=
      if bits = infinityBits then ['i', 'n', 'f']
      else if bits = 0 then positional style.keepsPoint ['0'] 0
      else layout style (decimal bits)
    if isNegative x then '-' :: shown else shown

/-- The form that reads back: the shortest digits, positional below 10^16, a point always. -/
def exact (x : Float) : List Char :=
  format ⟨16, true⟩ Decimal.shortest x

/-- The form for output: fourteen digits at most, positional below 10^14, no idle point. -/
def plain (x : Float) : List Char :=
  format ⟨14, false⟩ (Decimal.significant 14) x

end LuaCore.Double
