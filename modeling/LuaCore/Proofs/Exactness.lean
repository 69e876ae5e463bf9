import LuaCore.Proofs.Significand

/-!
The exact values of finite numbers, counted in steps of the smallest one. Numbers are in the order
of these counts, and a sum is exact if its count is that of a finite number.
-/

namespace LuaCore.Double

open Float.Model (Format UnpackedFloat totalExponent)
open Float.Model.UnpackedFloat

def sign (x : Float) : Sign :=
  if isNegative x then .negative else .positive

/-- The exact value of a finite number, in steps. -/
def count (x : Float) : Int :=
  (sign x).apply (steps (magnitude x))

/-- The place of a number in the order of all numbers, the same one for both zeros. -/
def rank (x : Float) : Int :=
  (sign x).apply (magnitude x)

/-! Whole numbers. -/

theorem unit_positive : 0 < stepsPerUnit := by
  decide +kernel

theorem toInt_eq (x : Float) : toInt? x =
    if isFinite x ∧ steps (magnitude x) % stepsPerUnit = 0 then
      some ((sign x).apply (steps (magnitude x) / stepsPerUnit : Nat)) else none := by
  unfold toInt? sign
  cases isNegative x <;> rfl

theorem apply_mul (sign : Sign) (n m : Nat) : sign.apply n * m = sign.apply (n * m : Nat) := by
  cases sign <;> simp [Sign.apply]

theorem natAbs_count (x : Float) : (count x).natAbs = steps (magnitude x) := by
  rw [count]
  cases sign x <;> simp [Sign.apply]

/-- Whole numbers are those that take whole units. -/
theorem toInt_iff {x : Float} {n : Int} :
    toInt? x = some n ↔ isFinite x ∧ count x = n * stepsPerUnit := by
  rw [toInt_eq]
  constructor
  · intro found
    split at found
    · next whole =>
        obtain ⟨finite, divides⟩ := whole
        have same := apply_mul (sign x) (steps (magnitude x) / stepsPerUnit) stepsPerUnit
        rw [Nat.div_mul_cancel (Nat.dvd_of_mod_eq_zero divides), Option.some.inj found] at same
        exact ⟨finite, same.symm⟩
    · cases found
  · rintro ⟨finite, same⟩
    have absolute : steps (magnitude x) = n.natAbs * stepsPerUnit := by
      rw [← natAbs_count, same, Int.natAbs_mul, Int.natAbs_natCast]
    have nonzero := Int.ne_of_gt (Int.natCast_pos.mpr unit_positive)
    rw [count, absolute, ← apply_mul] at same
    rw [absolute, if_pos ⟨finite, Nat.mul_mod_left _ _⟩, Nat.mul_div_cancel _ unit_positive]
    exact congrArg some (Int.eq_of_mul_eq_mul_right nonzero same)

/-! Unpacking. -/

def pattern (x : Float) : Pattern :=
  x.toModel.toBits.toBitVec

/-- What a float is unpacked to. -/
inductive Unpacks (x : Float) : UnpackedFloat → Prop where
  | none (none : infinityBits < magnitude x) : Unpacks x .notANumber
  | infinite (all : magnitude x = infinityBits) : Unpacks x (.infinity (sign x))
  | zero (zero : magnitude x = 0) : Unpacks x (.zero (sign x))
  | finite {significand doublings : Nat}
      (canonical : Canonical significand doublings (magnitude x))
      (finite : magnitude x < infinityBits) (positive : 0 < significand) :
      Unpacks x (.finite (sign x) significand (doublings - 1074) positive)

theorem bits_components (x : Float) :
    x.toBits.toNat = (Sign.ofBitVec (unpackSign (pattern x))).toBitVec.toNat * 2 ^ 63 +
      ((unpackExponent (pattern x)).toNat * 2 ^ 52 +
        (unpackMantissa (pattern x)).toNat) := by
  rw [← toNat_components, components]
  rfl

theorem unpack_parts (x : Float) :
    Sign.ofBitVec (unpackSign (pattern x)) = sign x ∧
      magnitude x = (unpackExponent (pattern x)).toNat * 2 ^ 52 +
        (unpackMantissa (pattern x)).toNat := by
  have whole := bits_components x
  have exponentBound : (unpackExponent (pattern x)).toNat < 2 ^ 11 :=
    (unpackExponent _).isLt
  have mantissaBound : (unpackMantissa (pattern x)).toNat < 2 ^ 52 :=
    (unpackMantissa _).isLt
  have negative : isNegative x = decide (2 ^ 63 ≤ x.toBits.toNat) := rfl
  have same : magnitude x = x.toBits.toNat % 2 ^ 63 := rfl
  rw [sign, negative, same]
  cases bit : Sign.ofBitVec (unpackSign (pattern x)) with
  | negative =>
      have one : Sign.negative.toBitVec.toNat = 1 := rfl
      rw [bit, one] at whole
      refine ⟨?_, by omega⟩
      rw [if_pos (decide_eq_true (by omega))]
  | positive =>
      have zero : Sign.positive.toBitVec.toNat = 0 := rfl
      rw [bit, zero] at whole
      refine ⟨?_, by omega⟩
      rw [if_neg (by simp only [decide_eq_true_eq]; omega)]

theorem unpacks (x : Float) : Unpacks x x.toModel.unpack := by
  obtain ⟨sign, whole⟩ := unpack_parts x
  have exponentBound : (unpackExponent (pattern x)).toNat < 2 ^ 11 :=
    (unpackExponent _).isLt
  have mantissaBound : (unpackMantissa (pattern x)).toNat < 2 ^ 52 :=
    (unpackMantissa _).isLt
  change Unpacks x (unpack .binary64 (pattern x))
  rw [unpack, sign]
  by_cases last : unpackExponent (pattern x) = -1#11
  · have high : (unpackExponent (pattern x)).toNat = 2047 :=
      congrArg BitVec.toNat last
    rw [if_pos last]
    by_cases nothing : unpackMantissa (pattern x) = 0#52
    · have low : (unpackMantissa (pattern x)).toNat = 0 :=
        congrArg BitVec.toNat nothing
      rw [if_pos nothing]
      exact .infinite (by rw [whole, high, low]; rfl)
    · have low : (unpackMantissa (pattern x)).toNat ≠ 0 :=
        fun zero => nothing (BitVec.eq_of_toNat_eq zero)
      rw [if_neg nothing]
      exact .none (by rw [infinityBits_eq]; omega)
  · have below : (unpackExponent (pattern x)).toNat ≠ 2047 := by
      intro same
      exact last (BitVec.eq_of_toNat_eq (same.trans (by decide)))
    have finite : magnitude x < infinityBits := by
      rw [infinityBits_eq]
      omega
    rw [if_neg last]
    by_cases first : unpackExponent (pattern x) = 0#11
    · have least : (unpackExponent (pattern x)).toNat = 0 :=
        congrArg BitVec.toNat first
      rw [if_pos first]
      by_cases nothing : unpackMantissa (pattern x) = 0#52
      · have low : (unpackMantissa (pattern x)).toNat = 0 :=
          congrArg BitVec.toNat nothing
        rw [dif_pos nothing]
        exact .zero (by omega)
      · have exponent : ((unpackExponent (pattern x)).toNat : Int) -
            ((Format.binary64.exponentBias : Nat) +
              (Format.binary64.mantissaBitsWithoutImplicit : Nat)) + 1 = (0 : Nat) - 1074 := by
          rw [least]
          rfl
        have canonical : Canonical (unpackMantissa (pattern x)).toNat 0
            (magnitude x) := ⟨by rw [whole, least], by omega, .inl rfl⟩
        simp only [dif_neg nothing, exponent]
        exact .finite canonical finite _
    · have more : (unpackExponent (pattern x)).toNat ≠ 0 :=
        fun zero => first (BitVec.eq_of_toNat_eq zero)
      have exponent : ((unpackExponent (pattern x)).toNat : Int) -
          ((Format.binary64.exponentBias : Nat) +
            (Format.binary64.mantissaBitsWithoutImplicit : Nat)) =
          ((unpackExponent (pattern x)).toNat - 1 : Nat) - 1074 := by
        change _ - ((1023 : Nat) + (52 : Nat) : Int) = _
        omega
      have digits := toNat_implicit (unpackMantissa (pattern x))
      have canonical : Canonical (1#1 ++ unpackMantissa (pattern x)).toNat
          ((unpackExponent (pattern x)).toNat - 1) (magnitude x) :=
        ⟨by omega, by omega, .inr (by omega)⟩
      have positive : 0 < (1#1 ++ unpackMantissa (pattern x)).toNat := by omega
      simp only [if_neg first, exponent]
      exact .finite canonical finite positive

/-! Order. -/

section

variable {significand doublings bits significand' doublings' bits' : Nat} {x y : Float}

theorem canonical_compare (canonical : Canonical significand doublings bits)
    (canonical' : Canonical significand' doublings' bits') :
    (compare ((doublings : Int) - 1074) (doublings' - 1074)).then (compare significand significand') =
      compare (bits : Int) bits' := by
  have less := canonical_lt canonical canonical'
  have more := canonical_lt canonical' canonical
  rcases lt_trichotomy bits bits' with lower | rfl | higher
  · rw [Int.compare_eq_lt.mpr (Int.ofNat_lt.mpr lower), Ordering.then_eq_lt, Int.compare_eq_lt,
      Int.compare_eq_eq, Nat.compare_eq_lt]
    omega
  · rw [Int.compare_eq_eq.mpr rfl, Ordering.then_eq_eq, Int.compare_eq_eq, Nat.compare_eq_eq]
    omega
  · rw [Int.compare_eq_gt.mpr (Int.ofNat_lt.mpr higher), Ordering.then_eq_gt, Int.compare_eq_gt,
      Int.compare_eq_eq, Nat.compare_eq_gt]
    omega

theorem compare_negative (n m : Int) : compare (-n) (-m) = (compare n m).swap := by
  rcases lt_trichotomy n m with less | rfl | more
  · rw [Int.compare_eq_lt.mpr less, Int.compare_eq_gt.mpr (by omega)]
    rfl
  · rw [Int.compare_eq_eq.mpr rfl, Int.compare_eq_eq.mpr rfl]
    rfl
  · rw [Int.compare_eq_gt.mpr more, Int.compare_eq_lt.mpr (by omega)]
    rfl

/-- The greater magnitude decides, by its sign. -/
theorem compare_above (sign sign' : Sign) (more : bits' < bits) :
    compare (sign.apply bits) (sign'.apply bits') = compare (sign.apply 1) 0 := by
  cases sign
  · exact Int.compare_eq_lt.mpr (by cases sign' <;> simp only [Sign.apply] <;> omega)
  · exact Int.compare_eq_gt.mpr (by cases sign' <;> simp only [Sign.apply] <;> omega)

theorem compare_below (sign sign' : Sign) (less : bits < bits') :
    compare (sign.apply bits) (sign'.apply bits') = compare 0 (sign'.apply 1) := by
  cases sign'
  · exact Int.compare_eq_gt.mpr (by cases sign <;> simp only [Sign.apply] <;> omega)
  · exact Int.compare_eq_lt.mpr (by cases sign <;> simp only [Sign.apply] <;> omega)

theorem compare_infinite (sign sign' : Sign) (positive : 0 < bits) :
    compare (sign.apply bits) (sign'.apply bits) = compare sign sign' := by
  cases sign <;> cases sign' <;> simp only [Sign.apply]
  · exact Int.compare_eq_eq.mpr rfl
  · exact Int.compare_eq_lt.mpr (by omega)
  · exact Int.compare_eq_gt.mpr (by omega)
  · exact Int.compare_eq_eq.mpr rfl

theorem compare_finite (sign sign' : Sign) (canonical : Canonical significand doublings bits)
    (canonical' : Canonical significand' doublings' bits') (positive : 0 < significand)
    (positive' : 0 < significand') :
    UnpackedFloat.compare (.finite sign significand (doublings - 1074) positive)
      (.finite sign' significand' (doublings' - 1074) positive') =
        some (compare (sign.apply bits) (sign'.apply bits')) := by
  have some := (canonical_positive canonical).mp positive
  have some' := (canonical_positive canonical').mp positive'
  have same := canonical_compare canonical canonical'
  cases sign <;> cases sign' <;> simp only [UnpackedFloat.compare, Sign.apply, Option.some.injEq]
  · rw [compare_negative, same]
  · exact (Int.compare_eq_lt.mpr (by omega)).symm
  · exact (Int.compare_eq_gt.mpr (by omega)).symm
  · exact same

theorem compare_unpacked {z z' : UnpackedFloat} (left : Unpacks x z) (right : Unpacks y z')
    (number : magnitude x ≤ infinityBits) (number' : magnitude y ≤ infinityBits) :
    z.compare z' = some (compare (rank x) (rank y)) := by
  have infinity : 0 < infinityBits := by decide
  rw [rank, rank]
  cases left with
  | none none => exact absurd none (Nat.not_lt.mpr number)
  | infinite all =>
      cases right with
      | none none => exact absurd none (Nat.not_lt.mpr number')
      | infinite all' => rw [all, all', compare_infinite _ _ infinity, UnpackedFloat.compare]
      | zero | finite =>
          rw [compare_above _ _ (by omega)]
          cases sign x <;> rfl
  | zero zero =>
      cases right with
      | none none => exact absurd none (Nat.not_lt.mpr number')
      | zero zero' =>
          rw [zero, zero']
          cases sign x <;> cases sign y <;> rfl
      | infinite all' =>
          rw [compare_below _ _ (by omega)]
          cases sign y <;> rfl
      | finite canonical' finite' positive' =>
          rw [compare_below _ _ (zero ▸ (canonical_positive canonical').mp positive')]
          cases sign y <;> rfl
  | finite canonical finite positive =>
      cases right with
      | none none => exact absurd none (Nat.not_lt.mpr number')
      | infinite all' =>
          rw [compare_below _ _ (by omega)]
          cases sign y <;> rfl
      | zero zero' =>
          rw [compare_above _ _ (zero' ▸ (canonical_positive canonical).mp positive)]
          cases sign x <;> rfl
      | finite canonical' finite' positive' =>
          exact compare_finite _ _ canonical canonical' positive positive'

theorem compare_rank (number : magnitude x ≤ infinityBits) (number' : magnitude y ≤ infinityBits) :
    x.toModel.unpack.compare y.toModel.unpack = some (compare (rank x) (rank y)) :=
  compare_unpacked (unpacks x) (unpacks y) number number'

theorem unpack_none (none : infinityBits < magnitude x) : x.toModel.unpack = .notANumber := by
  have unpacks := unpacks x
  generalize x.toModel.unpack = z at unpacks
  cases unpacks with
  | none => rfl
  | infinite all => omega
  | zero zero => omega
  | finite canonical finite positive => omega

/-- Equal numbers are at the same place, and what is no number is not equal even to itself. -/
theorem beq_iff : (x == y) = true ↔
    magnitude x ≤ infinityBits ∧ magnitude y ≤ infinityBits ∧ rank x = rank y := by
  have compares : (x == y) = true ↔ x.toModel.unpack.compare y.toModel.unpack = some .eq := by
    change (UnpackedFloat.compare _ _ == some .eq) = true ↔ _
    exact beq_iff_eq
  rw [compares]
  by_cases number : magnitude x ≤ infinityBits
  · by_cases number' : magnitude y ≤ infinityBits
    · simp [compare_rank number number', number, number']
    · rw [unpack_none (Nat.not_le.mp number')]
      cases x.toModel.unpack <;> simp [UnpackedFloat.compare, number']
  · rw [unpack_none (Nat.not_le.mp number)]
    simp [UnpackedFloat.compare, number]

theorem le_rank (number : magnitude x ≤ infinityBits) (number' : magnitude y ≤ infinityBits) :
    x ≤ y ↔ rank x ≤ rank y := by
  have compares : x ≤ y ↔ (x.toModel.unpack.compare y.toModel.unpack).any (·.isLE) = true := by
    change (Float.le x y = true) ↔ _
    simp only [Float.le, decide_eq_true_eq]
    rfl
  rw [compares, compare_rank number number', Option.any_some, Int.isLE_compare]

theorem steps_rank (sign sign' : Sign) (bits bits' : Nat) :
    sign.apply (steps bits) ≤ sign'.apply (steps bits') ↔ sign.apply bits ≤ sign'.apply bits' := by
  have order := steps_strictMono.le_iff_le (a := bits) (b := bits')
  have order' := steps_strictMono.le_iff_le (a := bits') (b := bits)
  have zero (bits : Nat) : steps bits = 0 ↔ bits = 0 :=
    ⟨steps_zero, by rintro rfl; rfl⟩
  have none := zero bits
  have none' := zero bits'
  cases sign <;> cases sign' <;> simp only [Sign.apply] <;> omega

/-- Finite numbers are in the order of their exact values. -/
theorem le_iff (finite : isFinite x) (finite' : isFinite y) : x ≤ y ↔ count x ≤ count y := by
  have below : magnitude x < infinityBits := of_decide_eq_true finite
  have below' : magnitude y < infinityBits := of_decide_eq_true finite'
  rw [le_rank (Nat.le_of_lt below) (Nat.le_of_lt below'), count, count, steps_rank, rank, rank]

end

end LuaCore.Double
