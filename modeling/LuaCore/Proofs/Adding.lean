import LuaCore.Proofs.Exactness

/-!
Sums of finite numbers. What is rounded is a number of units of some size, and rounding leaves it as
it is if it comes to a magnitude, so that a sum is exact if its count is that of a finite number.
-/

namespace LuaCore.Double

open Float.Model (Format UnpackedFloat totalExponent)
open Float.Model.UnpackedFloat

variable {significand doublings bits significand' doublings' bits' : Nat} {x y : Float}

/-! Rounding of what needs none. -/

/-- The exponent of a magnitude is the one for the number of its digits. -/
theorem target_canonical (canonical : Canonical significand doublings bits)
    (positive : 0 < significand) (shift : Nat) :
    Format.binary64.targetExponent
      (totalExponent (significand * 2 ^ shift) (doublings - shift - 1074)) = doublings - 1074 := by
  have least : Format.binary64.minExponent = -1074 := by decide
  have short := (Nat.log2_lt (Nat.ne_of_gt positive)).mpr canonical.short
  rw [totalExponent, log2_shift positive, Format.targetExponent, least]
  change max (_ - ((1 + 52 : Nat) : Int)) _ = _
  rcases canonical.full with none | full
  · omega
  · have leading : significand.log2 = 52 := log2_between full canonical.short
    omega

theorem shift_exact (n shift : Nat) :
    ((⟨n * 2 ^ shift, false, false⟩ : ExtendedMantissa) >>> shift) = ⟨n, false, false⟩ := by
  change Nat.repeat ExtendedMantissa.shiftRightOne shift _ = _
  induction shift generalizing n with
  | zero => simp [Nat.repeat]
  | succ shift ih =>
      have half : n * 2 ^ (shift + 1) = (n * 2) * 2 ^ shift := by rw [Nat.pow_succ', Nat.mul_assoc]
      rw [half, Nat.repeat, ih]
      simp [ExtendedMantissa.shiftRightOne]

theorem target_exact (canonical : Canonical significand doublings bits)
    (positive : 0 < significand) (shift : Nat) :
    shiftToTargetExponent .binary64 (significand * 2 ^ shift) (doublings - shift - 1074) .exact =
      ((⟨significand, false, false⟩ : ExtendedMantissa), (doublings : Int) - 1074) := by
  have amount : ((doublings : Int) - 1074 - (doublings - shift - 1074)).toNat = shift := by omega
  simp only [shiftToTargetExponent, shiftToExponent, target_canonical canonical positive, amount,
    ExtendedMantissa.ofMantissaAndAccuracy, shift_exact, Prod.mk.injEq, true_and]
  omega

theorem accuracy_exact (canonical : Canonical significand doublings bits)
    (positive : 0 < significand) (sign : Sign) (shift : Nat) :
    roundWithAccuracy .binary64 sign (significand * 2 ^ shift) (doublings - shift - 1074) .exact =
      .finite sign significand (doublings - 1074) positive := by
  have exact' := target_exact canonical positive shift
  have again := target_exact canonical positive 0
  simp only [Nat.pow_zero, Nat.mul_one, Int.natCast_zero, Int.sub_zero] at again
  simp only [roundWithAccuracy, exact', ExtendedMantissa.roundedMantissa, ExtendedMantissa.accuracy,
    Accuracy.roundToNearestEven, again, dif_neg (Nat.ne_of_gt positive)]

/-- A number of steps that is a magnitude is rounded to it, in whatever units it is counted. -/
theorem round_exact (canonical : Canonical significand doublings bits)
    (positive : 0 < significand) (sign : Sign) {mantissa unit : Nat}
    (same : mantissa * 2 ^ unit = significand * 2 ^ doublings) :
    UnpackedFloat.round .binary64 sign mantissa (unit - 1074) =
      .finite sign significand (doublings - 1074) positive := by
  have some : 0 < mantissa := by
    apply Nat.pos_of_ne_zero
    rintro rfl
    rw [Nat.zero_mul] at same
    exact absurd same (Nat.ne_of_lt (Nat.mul_pos positive (Nat.two_pow_pos _)))
  have total : totalExponent mantissa (unit - 1074) =
      totalExponent (significand * 2 ^ 0) (doublings - (0 : Nat) - 1074) := by
    have leading := congrArg Nat.log2 same
    rw [log2_shift some, log2_shift positive] at leading
    simp only [totalExponent, Nat.pow_zero, Nat.mul_one]
    omega
  have target := target_canonical canonical positive 0
  have decreased : decreaseExponent mantissa (unit - 1074) (doublings - 1074) =
      (significand * 2 ^ (doublings - unit), (doublings : Int) - (doublings - unit : Nat) - 1074) := by
    have amount : ((unit : Int) - 1074 - (doublings - 1074)).toNat = unit - doublings := by omega
    have scaled : mantissa * 2 ^ (unit - doublings) = significand * 2 ^ (doublings - unit) := by
      apply Nat.eq_of_mul_eq_mul_right (Nat.two_pow_pos (min unit doublings))
      rw [Nat.mul_assoc, Nat.mul_assoc, ← Nat.pow_add, ← Nat.pow_add]
      convert same using 3 <;> omega
    simp only [decreaseExponent, amount, Nat.shiftLeft_eq, scaled, Prod.mk.injEq, true_and]
    omega
  rw [UnpackedFloat.round, total, target, decreased]
  exact accuracy_exact canonical positive sign (doublings - unit)

/-! Sums. -/

/-- The number with a sign and a magnitude. -/
def withSign (sign : Sign) (bits : Nat) : Float :=
  match sign with
  | .negative => -ofMagnitude bits
  | .positive => ofMagnitude bits

theorem magnitude_withSign (sign : Sign) (number : bits ≤ infinityBits) :
    magnitude (withSign sign bits) = bits := by
  cases sign with
  | negative =>
      have unsigned := magnitude_ofMagnitude number
      exact (magnitude_neg (unsigned.trans_le number)).trans unsigned
  | positive => exact magnitude_ofMagnitude number

theorem sign_withSign (side : Sign) (number : bits ≤ infinityBits) :
    sign (withSign side bits) = side := by
  cases side with
  | negative => exact if_pos (negative_neg number)
  | positive => simp [sign, withSign, positive_ofMagnitude number]

theorem unpacks_unique {z z' : UnpackedFloat} (unpacks : Unpacks x z) (unpacks' : Unpacks x z') :
    z = z' := by
  have infinity : 0 < infinityBits := by decide
  cases unpacks with
  | none none =>
      cases unpacks' with
      | none => rfl
      | _ => omega
  | infinite all =>
      cases unpacks' with
      | infinite => rfl
      | _ => omega
  | zero zero =>
      cases unpacks' with
      | zero => rfl
      | finite canonical _ positive =>
          exact absurd zero (Nat.ne_of_gt ((canonical_positive canonical).mp positive))
      | _ => omega
  | finite canonical finite positive =>
      cases unpacks' with
      | zero zero => exact absurd zero (Nat.ne_of_gt ((canonical_positive canonical).mp positive))
      | finite canonical' =>
          obtain ⟨rfl, rfl⟩ := canonical_unique canonical canonical'
          rfl
      | _ => omega

theorem pack_unpacked {z : UnpackedFloat} (unpacked : Unpacks x z) :
    Float.ofModel (Float.Model.pack z) = x := by
  rw [unpacks_unique unpacked (unpacks x)]
  apply eq_of_bits
  have packed : (Float.ofModel (Float.Model.pack x.toModel.unpack)).toBits.toBitVec =
      x.toModel.toBits.toBitVec := pack_unpack x.toModel.valid
  exact congrArg BitVec.toNat packed

theorem count_withSign (sign : Sign) (number : bits ≤ infinityBits) :
    count (withSign sign bits) = sign.apply (steps bits) := by
  rw [count, sign_withSign sign number, magnitude_withSign sign number]

theorem unpacks_withSign (side : Sign) (canonical : Canonical significand doublings bits)
    (finite : bits < infinityBits) (positive : 0 < significand) :
    Unpacks (withSign side bits) (.finite side significand (doublings - 1074) positive) := by
  have number := Nat.le_of_lt finite
  have unpacks : Unpacks (withSign side bits)
      (.finite (sign (withSign side bits)) significand (doublings - 1074) positive) := by
    apply Unpacks.finite <;> rwa [magnitude_withSign side number]
  rwa [sign_withSign side number] at unpacks

theorem zero_withSign (side : Sign) : Unpacks (withSign side 0) (.zero side) := by
  have number : 0 ≤ infinityBits := Nat.zero_le infinityBits
  have unpacks := Unpacks.zero (magnitude_withSign side number)
  rwa [sign_withSign side number] at unpacks

theorem round_worth (sign : Sign) {mantissa unit : Nat} (nonzero : mantissa ≠ 0)
    (finite : bits < infinityBits) (worth : mantissa * 2 ^ unit = steps bits) :
    Unpacks (withSign sign bits) (UnpackedFloat.round .binary64 sign mantissa (unit - 1074)) := by
  obtain ⟨significand, doublings, canonical⟩ := canonical_exists bits
  have same := worth.trans (steps_canonical canonical)
  have positive : 0 < significand := by
    apply Nat.pos_of_ne_zero
    rintro rfl
    simp [nonzero] at same
  rw [round_exact canonical positive sign same]
  exact unpacks_withSign sign canonical finite positive

theorem finite_withSign (sign : Sign) (finite : bits < infinityBits) :
    isFinite (withSign sign bits) := by
  rw [isFinite, magnitude_withSign sign (Nat.le_of_lt finite)]
  exact decide_eq_true finite

/-- A sum of mantissas is rounded to its exact value if this is a finite number. -/
theorem normalize_exact {mantissa : Int} {unit : Nat} (finite : bits < infinityBits)
    (worth : (mantissa * 2 ^ unit).natAbs = steps bits) :
    ∃ x, Unpacks x (UnpackedFloat.normalize .binary64 mantissa (unit - 1074) .positive) ∧
      isFinite x ∧ count x = mantissa * 2 ^ unit := by
  have number := Nat.le_of_lt finite
  have scaled : mantissa.natAbs * 2 ^ unit = steps bits := by
    rw [← worth, Int.natAbs_mul, Int.natAbs_pow]
    rfl
  have absolute : (mantissa.natAbs : Int) * 2 ^ unit = steps bits := by exact_mod_cast scaled
  rw [UnpackedFloat.normalize]
  rcases lt_trichotomy mantissa 0 with negative | rfl | positive
  · have rounded := round_worth .negative (by omega) finite scaled
    refine ⟨_, ?_, finite_withSign .negative finite, ?_⟩
    · have opposite : (-mantissa).toNat = mantissa.natAbs := by omega
      simpa only [Int.compare_eq_lt.mpr negative, opposite] using rounded
    · have opposite : mantissa = -(mantissa.natAbs : Int) := by omega
      rw [count_withSign .negative number, ← absolute, Sign.apply, ← Int.neg_mul, ← opposite]
  · refine ⟨_, zero_withSign .positive, finite_withSign .positive (by decide), ?_⟩
    rw [count_withSign .positive (Nat.zero_le _), Int.zero_mul]
    rfl
  · have rounded := round_worth .positive (by omega) finite scaled
    refine ⟨_, ?_, finite_withSign .positive finite, ?_⟩
    · have same : mantissa.toNat = mantissa.natAbs := by omega
      simpa only [Int.compare_eq_gt.mpr positive, same] using rounded
    · have same : mantissa = (mantissa.natAbs : Int) := by omega
      rw [count_withSign .positive number, ← absolute, Sign.apply, ← same]

theorem count_zero (zero : magnitude x = 0) : count x = 0 := by
  rw [count, zero]
  cases sign x <;> rfl

theorem count_canonical (canonical : Canonical significand doublings (magnitude x)) :
    count x = (sign x).apply significand * 2 ^ doublings := by
  rw [count, steps_canonical canonical]
  cases sign x <;> simp [Sign.apply]

/-- Two numbers of units, shifted to the smaller unit. -/
theorem add_scaled (sign sign' : Sign) (first second doublings doublings' : Nat) :
    (sign.apply (first <<< (doublings - min doublings doublings') : Nat) +
      sign'.apply (second <<< (doublings' - min doublings doublings') : Nat)) *
        2 ^ min doublings doublings' =
      sign.apply first * 2 ^ doublings + sign'.apply second * 2 ^ doublings' := by
  have shifted (sign : Sign) (n exponent : Nat) (less : min doublings doublings' ≤ exponent) :
      sign.apply (n <<< (exponent - min doublings doublings') : Nat) * 2 ^ min doublings doublings' =
        sign.apply n * 2 ^ exponent := by
    obtain ⟨more, rfl⟩ := Nat.exists_eq_add_of_le less
    rw [Nat.add_sub_cancel_left, Nat.shiftLeft_eq, Int.pow_add]
    cases sign <;> simp only [Sign.apply] <;> push_cast <;> ring
  rw [Int.add_mul, shifted _ _ _ (Nat.min_le_left _ _), shifted _ _ _ (Nat.min_le_right _ _)]

theorem add_unpacked {z z' : UnpackedFloat} (left : Unpacks x z) (right : Unpacks y z')
    (finite : isFinite x) (finite' : isFinite y) (bound : bits < infinityBits)
    (worth : (count x + count y).natAbs = steps bits) :
    ∃ total, Unpacks total (UnpackedFloat.add .binary64 z z') ∧ isFinite total ∧
      count total = count x + count y := by
  have below : magnitude x < infinityBits := of_decide_eq_true finite
  have below' : magnitude y < infinityBits := of_decide_eq_true finite'
  cases left with
  | none none => omega
  | infinite all => omega
  | zero zero =>
      cases right with
      | none none => omega
      | infinite all => omega
      | zero zero' =>
          rw [count_zero zero, count_zero zero']
          by_cases same : (sign x == sign y) = true
          · refine ⟨x, ?_, finite, count_zero zero⟩
            simpa only [UnpackedFloat.add, if_pos same] using Unpacks.zero zero
          · refine ⟨withSign .positive 0, ?_, finite_withSign .positive (by decide), ?_⟩
            · simpa only [UnpackedFloat.add, if_neg same] using zero_withSign .positive
            · exact count_zero (magnitude_withSign .positive (Nat.zero_le _))
      | finite canonical' _ positive' =>
          refine ⟨y, .finite canonical' below' positive', finite', ?_⟩
          rw [count_zero zero, Int.zero_add]
  | @finite significand doublings canonical _ positive =>
      cases right with
      | none none => omega
      | infinite all => omega
      | zero zero' =>
          refine ⟨x, .finite canonical below positive, finite, ?_⟩
          rw [count_zero zero', Int.add_zero]
      | @finite significand' doublings' canonical' _ positive' =>
          rw [count_canonical canonical, count_canonical canonical', ← add_scaled] at worth ⊢
          have exponent : min ((doublings : Int) - 1074) (doublings' - 1074) =
              (min doublings doublings' : Nat) - 1074 := by omega
          have shift (doublings unit : Nat) :
              ((doublings : Int) - 1074 - (unit - 1074)).toNat = doublings - unit := by omega
          simpa only [UnpackedFloat.add, decreaseExponent, exponent, shift] using
            normalize_exact bound worth

/-- A sum that is a finite number is computed without an error. -/
theorem add_exact (finite : isFinite x) (finite' : isFinite y) (bound : bits < infinityBits)
    (worth : (count x + count y).natAbs = steps bits) :
    isFinite (x + y) ∧ count (x + y) = count x + count y := by
  obtain ⟨total, unpacked, exact'⟩ :=
    add_unpacked (unpacks x) (unpacks y) finite finite' bound worth
  have same : x + y = total := pack_unpacked unpacked
  rwa [same]

end LuaCore.Double
