import LuaCore.Evaluation
import LuaCore.Program.OfTree
import LuaCore.Proofs.Adding
import LuaCore.Proofs.Grammar

/-!
Minus signs. The product with minus one is exact for every number, so that a number that takes the
sign itself and a product that is computed when the expression is evaluated are the same.
-/

namespace LuaCore

/-! The product with minus one. -/

namespace Double

open Float.Model (Format UnpackedFloat)
open Float.Model.UnpackedFloat

theorem unpack_minusOne :
    (-1 : Float).toModel.unpack = .finite .negative (2 ^ 52) (-52) (by decide) :=
  rfl

theorem sign_minus (sign : Sign) : Sign.negative * sign = -sign := by
  cases sign <;> rfl

theorem mul_unpacked {x : Float} {z : UnpackedFloat} (unpacked : Unpacks x z) :
    UnpackedFloat.mul .binary64 (-1 : Float).toModel.unpack z = z.neg := by
  rw [unpack_minusOne]
  cases unpacked with
  | none => rfl
  | infinite | zero => simp only [UnpackedFloat.mul, UnpackedFloat.neg, sign_minus]
  | @finite significand doublings canonical _ positive =>
      have exponent : (-52 : Int) + (doublings - 1074) = doublings - (52 : Nat) - 1074 := by omega
      simp only [UnpackedFloat.mul, UnpackedFloat.neg, sign_minus, exponent,
        Nat.mul_comm (2 ^ 52) significand]
      exact accuracy_exact canonical positive (-sign x) 52

theorem minusOne_mul (x : Float) : -1 * x = -x :=
  congrArg (Float.ofModel ∘ Float.Model.pack) (mul_unpacked (unpacks x))

/-! The other sign. -/

/-- The second number is the first one with the other sign. What is no number has none. -/
def Flips (x y : Float) : Prop :=
  if x.isNaN then y.isNaN = true else magnitude y = magnitude x ∧ isNegative y = !isNegative x

theorem isNegative_neg {x : Float} (number : magnitude x ≤ infinityBits) :
    isNegative (-x) = !isNegative x := by
  have bound : magnitude x < 2 ^ 63 := Nat.mod_lt _ (by decide)
  change decide (2 ^ 63 ≤ (-x).toBits.toNat) = _
  rw [bits_neg number]
  cases isNegative x
  · exact decide_eq_true (Nat.le_add_left _ _)
  · exact decide_eq_false (Nat.not_le.mpr bound)

theorem isNaN_neg {x : Float} (none : x.isNaN = true) : (-x).isNaN = true := by
  have packed : -x = Float.ofModel (Float.Model.pack x.toModel.unpack.neg) := rfl
  rw [packed, unpack_none ((isNaN_iff x).mp none)]
  rfl

theorem neg_flips (x : Float) : Flips x (-x) := by
  unfold Flips
  split
  · next none => exact isNaN_neg none
  · next number =>
      have number := (number_iff x).mp (Bool.eq_false_iff.mpr number)
      exact ⟨magnitude_neg number, isNegative_neg number⟩

end Double

/-! Negations of expressions. -/

open Evaluation

/-- What a minus sign makes of the outcome of the expression behind it: a number gets the other
sign, any other value is misused, and a failure is kept. The machine is not changed. -/
inductive Negates : Outcome Value → Outcome Value → Prop where
  | number {x y : Float} (flips : Double.Flips x y) (machine : Machine) :
      Negates (.done (.number x) machine) (.done (.number y) machine)
  | other {value : Value} (other : ∀ x, value ≠ .number x) (machine : Machine) :
      Negates (.done value machine) (.failed (.misuse .arithmetic value none) machine)
  | failed (failure : Failure) (machine : Machine) :
      Negates (.failed failure machine) (.failed failure machine)
  | exhausted : Negates .exhausted .exhausted

/-- What is parsed from a minus sign and an expression. -/
theorem ofTree_negate {operand : Tree.Grammar.Derivation (.level 3)} {expression : Expression}
    (built : Expression.ofTree operand.tree = .ok expression)
    (mark : Tree.Grammar.Mark (.operator .subtract)) :
    Expression.ofTree (Tree.Grammar.Derivation.negate mark operand).tree =
      .ok expression.negate := by
  rw [Tree.Grammar.Derivation.tree, Expression.ofTree, built]
  rfl

section

variable (call : Caller) (fuel : Nat) (scope : Scope) (expression : Expression)

theorem operate_minusOne (x : Float) :
    operate .multiply (.number (-1)) (.number x) = Eval.pure (.number (-x)) := by
  change Eval.pure (Value.number (-1 * x)) = _
  rw [Double.minusOne_mul]

/-- It does not matter whether a number takes the sign itself. -/
theorem evaluate_negate :
    evaluate call fuel scope expression.negate =
      Eval.bind (evaluate call fuel scope expression) (operate .multiply (.number (-1))) := by
  cases expression with
  | number x => exact (operate_minusOne x).symm
  | _ => rfl

theorem negates_evaluate (machine : Machine) :
    Negates (evaluate call fuel scope expression machine)
      (evaluate call fuel scope expression.negate machine) := by
  rw [evaluate_negate, Eval.bind]
  cases evaluate call fuel scope expression machine with
  | done value after =>
      cases value with
      | number x =>
          simp only [operate_minusOne]
          exact .number (Double.neg_flips x) after
      | _ => exact .other (by rintro _ ⟨⟩) after
  | failed failure after => exact .failed failure after
  | exhausted => exact .exhausted

end

end LuaCore
