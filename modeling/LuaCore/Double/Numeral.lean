import LuaCore.Double.Decimal
import LuaCore.Text.Digit

/-!
Numerals as they are written in a program: a hexadecimal whole number, or decimal digits of any
script with an optional point and exponent. Both are read to the nearest number.
-/

namespace LuaCore.Double

/-- The value of a row of decimal digits. -/
def decimalValue (digits : List Char) : Nat :=
  digits.foldl (fun value c => 10 * value + (Text.digitValue? c).getD 0) 0

def hexadecimalValue (digits : List Char) : Nat :=
  digits.foldl (fun value c => 16 * value + (Text.hexValue? c).getD 0) 0

/-- The exponent written after an exponent mark. -/
def writtenExponent : List Char → Int
  | mark :: '-' :: digits => if mark = 'e' ∨ mark = 'E' then -(decimalValue digits : Int) else 0
  | mark :: '+' :: digits => if mark = 'e' ∨ mark = 'E' then decimalValue digits else 0
  | mark :: digits => if mark = 'e' ∨ mark = 'E' then decimalValue digits else 0
  | [] => 0

/-- The digits after a point, and what follows them. -/
def fractionDigits : List Char → List Char × List Char
  | '.' :: rest => rest.span Text.isDecimalDigit
  | rest => ([], rest)

/-- A decimal numeral as an exact decimal. -/
def Numeral.decimal (text : List Char) : Decimal :=
  let (whole, rest) := text.span Text.isDecimalDigit
  let (fraction, rest) := fractionDigits rest
  ⟨decimalValue (whole ++ fraction), writtenExponent rest - fraction.length⟩

/-- The least natural number that has no nearest finite number. -/
def overflowThreshold : Nat := Nat.pow 2 1024 - Nat.pow 2 970

/-- The digits of a hexadecimal numeral. -/
def hexadecimalDigits? : List Char → Option (List Char)
  | '0' :: mark :: digits => if mark = 'x' ∨ mark = 'X' then some digits else none
  | _ => none

/-- The number that a numeral stands for. A hexadecimal numeral beyond the finite numbers stands
for none; a decimal one stands for infinity. -/
def Numeral.read? (text : List Char) : Option Float :=
  match hexadecimalDigits? text with
  | some digits =>
      let n := hexadecimalValue digits
      if n < overflowThreshold then some (ofMagnitude (nearestNat n)) else none
  | none => some (ofMagnitude (Numeral.decimal text).toMagnitude)

end LuaCore.Double
