import LuaCore.Operation
import LuaCore.Value

/-!
Binary operators on values. Arithmetic is for numbers only and names the first operand that is
none, the left one before the right one. A comparison of two numbers is a truth value; any other
comparison is nil. Division by zero follows the arithmetic of binary64 numbers.
-/

namespace LuaCore

def arithmetic : Operation → Option (Float → Float → Float)
  | .add => some (· + ·)
  | .subtract => some (· - ·)
  | .multiply => some (· * ·)
  | .divide => some (· / ·)
  | _ => none

def comparison : Operation → Float → Float → Bool
  | .equal, x, y => x == y
  | .greater, x, y => y < x
  | .less, x, y => x < y
  | .greaterOrEqual, x, y => y ≤ x
  | .lessOrEqual, x, y => x ≤ y
  | _, _, _ => false

/-- The value of an operation, or the operand that it is not defined for. -/
def binary (operation : Operation) (lhs rhs : Value) : Except Value Value :=
  match arithmetic operation, lhs, rhs with
  | some compute, .number x, .number y => .ok (.number (compute x y))
  | some _, .number _, other => .error other
  | some _, other, _ => .error other
  | none, .number x, .number y => .ok (.boolean (comparison operation x y))
  | none, _, _ => .ok .nil

end LuaCore
