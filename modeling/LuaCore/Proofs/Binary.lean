import Mathlib
import LuaCore.Double.Basic

/-!
Bit patterns of numbers. Below the sign of a pattern stands its place in the order of magnitudes,
and above all magnitudes is what is no number. A number with one of these magnitudes, and its
negation, have the patterns that are expected.
-/

namespace LuaCore.Double

open Float.Model (Format UnpackedFloat)
open Float.Model.UnpackedFloat

/-! Sign, exponent and mantissa of a pattern. -/

abbrev Pattern := BitVec Format.binary64.numBits

theorem components (bits : Pattern) :
    packComponents .binary64 (Sign.ofBitVec (unpackSign bits)) (unpackExponent bits)
      (unpackMantissa bits) = bits := by
  have sign (bit : BitVec 1) : (Sign.ofBitVec bit).toBitVec = bit := by
    revert bit
    decide
  simp only [packComponents, sign, unpackSign, unpackExponent, unpackMantissa, BitVec.extractLsb]
  ext place bound
  grind

theorem sign_components (sign : Sign) (exponent : BitVec 11) (mantissa : BitVec 52) :
    Sign.ofBitVec (unpackSign (packComponents .binary64 sign exponent mantissa)) = sign := by
  simp only [unpackSign, packComponents, BitVec.extractLsb]
  rw [BitVec.extractLsb'_append_eq_of_le (by omega),
    BitVec.extractLsb'_append_eq_of_le (by omega)]
  cases sign <;> rfl

theorem toNat_components (sign : Sign) (exponent : BitVec 11) (mantissa : BitVec 52) :
    (packComponents .binary64 sign exponent mantissa).toNat =
      sign.toBitVec.toNat * 2 ^ 63 + (exponent.toNat * 2 ^ 52 + mantissa.toNat) := by
  have low := mantissa.isLt
  simp only [packComponents, BitVec.toNat_append]
  rw [← Nat.shiftLeft_add_eq_or_of_lt exponent.isLt, ← Nat.shiftLeft_add_eq_or_of_lt low,
    Nat.shiftLeft_eq, Nat.shiftLeft_eq]
  omega

theorem neg_unpack (sign : Sign) (exponent : BitVec 11) (mantissa : BitVec 52) :
    (unpack .binary64 (packComponents .binary64 sign exponent mantissa)).neg =
      unpack .binary64 (packComponents .binary64 (-sign) exponent mantissa) := by
  simp only [unpack, unpackMantissa_packComponents, unpackExponent_packComponents,
    sign_components]
  split
  · split <;> rfl
  · split
    · split <;> rfl
    · rfl

/-- A pattern with components that are given is the one that they make up. -/
theorem components_given {bits : Pattern} {exponent : BitVec 11} {mantissa : BitVec 52}
    (high : unpackExponent bits = exponent) (low : unpackMantissa bits = mantissa) :
    packComponents .binary64 (Sign.ofBitVec (unpackSign bits)) exponent mantissa = bits := by
  rw [← high, ← low]
  exact components bits

theorem log2_between {n low : Nat} (least : 2 ^ low ≤ n) (less : n < 2 ^ (low + 1)) :
    n.log2 = low := by
  have positive : n ≠ 0 := by
    rintro rfl
    exact absurd least (Nat.not_le.mpr (Nat.two_pow_pos low))
  have above := (Nat.le_log2 positive).mpr least
  have below := (Nat.log2_lt positive).mpr less
  omega

theorem pack_finite (sign : Sign) {mantissa : Nat} (positive : 0 < mantissa) {exponent : Int}
    {biased : Nat} (same : exponent + 1075 = biased) (fits : biased < 2047) :
    pack .binary64 (.finite sign mantissa exponent positive) =
      if mantissa.log2 = 52 then
        packComponents .binary64 sign (BitVec.ofNat 11 biased) (BitVec.ofNat 52 mantissa)
      else packComponents .binary64 sign 0#11 (BitVec.ofNat 52 mantissa) := by
  have shifted : (exponent + (Format.binary64.exponentBias : Nat) +
      (Format.binary64.mantissaBitsWithoutImplicit : Nat)).toNat = biased := by
    change (exponent + (1023 : Nat) + (52 : Nat)).toNat = biased
    omega
  have inside : ¬ 2 ^ Format.binary64.exponentBits ≤ biased + 1 := by
    change ¬ 2 ^ 11 ≤ biased + 1
    omega
  have full : mantissa.log2 + 1 = Format.binary64.mantissaBits ↔ mantissa.log2 = 52 := by
    change mantissa.log2 + 1 = 53 ↔ _
    omega
  simp only [pack, shifted, if_neg inside, full]

theorem toNat_implicit (mantissa : BitVec 52) :
    (1#1 ++ mantissa).toNat = 2 ^ 52 + mantissa.toNat := by
  rw [BitVec.toNat_append, ← Nat.shiftLeft_add_eq_or_of_lt mantissa.isLt, Nat.shiftLeft_eq]
  rfl

/-- A valid pattern is what its number is packed to. -/
theorem pack_unpack {bits : Pattern} (valid : Format.binary64.Valid bits) :
    pack .binary64 (unpack .binary64 bits) = bits := by
  have exponentBound : (unpackExponent bits).toNat < 2 ^ 11 := (unpackExponent bits).isLt
  have mantissaBound : (unpackMantissa bits).toNat < 2 ^ 52 := (unpackMantissa bits).isLt
  rw [unpack]
  by_cases last : unpackExponent bits = -1#11
  · rw [if_pos last]
    by_cases none : unpackMantissa bits = 0#52
    · rw [if_pos none]
      exact components_given last none
    · rw [if_neg none]
      exact (valid.eq_packedNaN last none).symm
  · rw [if_neg last]
    have below : (unpackExponent bits).toNat ≠ 2047 := by
      intro same
      exact last (BitVec.eq_of_toNat_eq (same.trans (by decide)))
    by_cases first : unpackExponent bits = 0#11
    · rw [if_pos first]
      by_cases none : unpackMantissa bits = 0#52
      · rw [dif_pos none]
        exact components_given first none
      · -- The leading digit is not in front of the mantissa but inside of it.
        have short : (unpackMantissa bits).toNat.log2 ≠ 52 := by
          have positive : (unpackMantissa bits).toNat ≠ 0 :=
            fun zero => none (BitVec.eq_of_toNat_eq zero)
          have less := (Nat.log2_lt positive).mpr mantissaBound
          omega
        have zero : (unpackExponent bits).toNat = 0 := congrArg BitVec.toNat first
        rw [dif_neg none, @pack_finite _ _ _ _ 1 ?_ (by decide), if_neg short]
        · refine components_given first ?_
          rw [BitVec.ofNat_toNat, BitVec.setWidth_eq]
        · change ((unpackExponent bits).toNat : Int) - ((1023 : Nat) + (52 : Nat)) + 1 + 1075 = _
          omega
    · have whole := toNat_implicit (unpackMantissa bits)
      have full : (1#1 ++ unpackMantissa bits).toNat.log2 = 52 := by
        apply log2_between <;> omega
      rw [if_neg first, @pack_finite _ _ _ _ (unpackExponent bits).toNat ?_ (by omega), if_pos full]
      · refine components_given ?_ ?_
        · rw [BitVec.ofNat_toNat, BitVec.setWidth_eq]
        · apply BitVec.eq_of_toNat_eq
          rw [BitVec.toNat_ofNat, whole, Nat.add_mod_left, Nat.mod_eq_of_lt mantissaBound]
      · change ((unpackExponent bits).toNat : Int) - ((1023 : Nat) + (52 : Nat)) + 1075 = _
        omega

/-! Numbers by their magnitudes. -/

theorem infinityBits_eq : infinityBits = 2047 * 2 ^ 52 :=
  rfl

theorem isNaN_unpack (bits : Pattern) :
    (unpack .binary64 bits).isNaN = true ↔ infinityBits < bits.toNat % 2 ^ 63 := by
  have whole := toNat_components (Sign.ofBitVec (unpackSign bits)) (unpackExponent bits)
    (unpackMantissa bits)
  have exponentBound : (unpackExponent bits).toNat < 2 ^ 11 := (unpackExponent bits).isLt
  have mantissaBound : (unpackMantissa bits).toNat < 2 ^ 52 := (unpackMantissa bits).isLt
  have sign : ∃ bit, (Sign.ofBitVec (unpackSign bits)).toBitVec.toNat = bit := ⟨_, rfl⟩
  obtain ⟨bit, sign⟩ := sign
  rw [components, sign] at whole
  rw [infinityBits_eq, whole, unpack]
  by_cases last : unpackExponent bits = -1#11
  · have high : (unpackExponent bits).toNat = 2047 := congrArg BitVec.toNat last
    rw [if_pos last]
    by_cases none : unpackMantissa bits = 0#52
    · have low : (unpackMantissa bits).toNat = 0 := congrArg BitVec.toNat none
      rw [if_pos none]
      constructor
      · rintro ⟨⟩
      · intro above
        omega
    · have low : (unpackMantissa bits).toNat ≠ 0 := fun zero => none (BitVec.eq_of_toNat_eq zero)
      rw [if_neg none]
      refine ⟨fun _ => ?_, fun _ => rfl⟩
      omega
  · have below : (unpackExponent bits).toNat ≠ 2047 := by
      intro same
      exact last (BitVec.eq_of_toNat_eq (same.trans (by decide)))
    rw [if_neg last]
    constructor
    · intro found
      split at found
      · split at found <;> cases found
      · cases found
    · intro above
      omega

theorem isNaN_iff (x : Float) : x.isNaN = true ↔ infinityBits < magnitude x :=
  isNaN_unpack x.toModel.toBits.toBitVec

theorem number_iff (x : Float) : x.isNaN = false ↔ magnitude x ≤ infinityBits := by
  rw [← Bool.not_eq_true, isNaN_iff, Nat.not_lt]

/-- No pattern of a number is one that is not packed. -/
theorem valid_number {bits : Pattern} (number : bits.toNat % 2 ^ 63 ≤ infinityBits) :
    Format.binary64.Valid bits := by
  refine ⟨fun last some => ?_⟩
  have none : (unpack .binary64 bits).isNaN = true := by
    rw [unpack, if_pos last, if_neg some]
    rfl
  exact absurd ((isNaN_unpack bits).mp none) (Nat.not_lt.mpr number)

theorem eq_of_bits {x y : Float} (same : x.toBits.toNat = y.toBits.toNat) : x = y := by
  obtain ⟨⟨bits, _⟩⟩ := x
  obtain ⟨⟨bits', _⟩⟩ := y
  cases UInt64.toNat.inj same
  rfl

theorem bits_lt (x : Float) : x.toBits.toNat < 2 ^ 64 :=
  x.toBits.toNat_lt

theorem bits_eq (x : Float) :
    x.toBits.toNat = if isNegative x then magnitude x + 2 ^ 63 else magnitude x := by
  have bound := bits_lt x
  change x.toBits.toNat = if decide (2 ^ 63 ≤ x.toBits.toNat) = true then
    x.toBits.toNat % 2 ^ 63 + 2 ^ 63 else x.toBits.toNat % 2 ^ 63
  by_cases negative : 2 ^ 63 ≤ x.toBits.toNat
  · rw [if_pos (decide_eq_true negative)]
    omega
  · rw [if_neg (by simpa using negative)]
    omega

theorem bits_ofMagnitude {bits : Nat} (number : bits ≤ infinityBits) :
    (ofMagnitude bits).toBits.toNat = bits := by
  have small : bits < 2 ^ 63 := Nat.lt_of_le_of_lt number (by decide)
  have same : (UInt64.ofNat bits).toBitVec.toNat = bits := Nat.mod_eq_of_lt (by omega)
  have valid : Format.binary64.Valid (UInt64.ofNat bits).toBitVec := by
    apply valid_number
    rw [same, Nat.mod_eq_of_lt small]
    exact number
  have packed : (ofMagnitude bits).toBits.toBitVec = (UInt64.ofNat bits).toBitVec :=
    pack_unpack valid
  exact (congrArg BitVec.toNat packed).trans same

theorem neg_pack {bits : Pattern} (number : bits.toNat % 2 ^ 63 ≤ infinityBits) :
    (pack .binary64 (unpack .binary64 bits).neg).toNat = (bits.toNat + 2 ^ 63) % 2 ^ 64 := by
  have whole := toNat_components (Sign.ofBitVec (unpackSign bits)) (unpackExponent bits)
    (unpackMantissa bits)
  have flipped := toNat_components (-Sign.ofBitVec (unpackSign bits)) (unpackExponent bits)
    (unpackMantissa bits)
  have negation := neg_unpack (Sign.ofBitVec (unpackSign bits)) (unpackExponent bits)
    (unpackMantissa bits)
  have exponentBound : (unpackExponent bits).toNat < 2 ^ 11 := (unpackExponent bits).isLt
  have mantissaBound : (unpackMantissa bits).toNat < 2 ^ 52 := (unpackMantissa bits).isLt
  have opposite : (-Sign.ofBitVec (unpackSign bits)).toBitVec.toNat =
      1 - (Sign.ofBitVec (unpackSign bits)).toBitVec.toNat := by
    cases Sign.ofBitVec (unpackSign bits) <;> rfl
  have one : (Sign.ofBitVec (unpackSign bits)).toBitVec.toNat ≤ 1 := by
    cases Sign.ofBitVec (unpackSign bits) <;> decide
  rw [components] at whole negation
  rw [negation, pack_unpack (valid_number ?_), flipped, opposite]
  · omega
  · rw [flipped, opposite]
    omega

theorem bits_neg {x : Float} (number : magnitude x ≤ infinityBits) :
    (-x).toBits.toNat = if isNegative x then magnitude x else magnitude x + 2 ^ 63 := by
  have magnitudeBound : magnitude x < 2 ^ 63 := Nat.mod_lt _ (by decide)
  have negated : (-x).toBits.toNat = (x.toBits.toNat + 2 ^ 63) % 2 ^ 64 := neg_pack number
  rw [negated, bits_eq x]
  split <;> omega

theorem magnitude_ofMagnitude {bits : Nat} (number : bits ≤ infinityBits) :
    magnitude (ofMagnitude bits) = bits := by
  have small : bits < 2 ^ 63 := Nat.lt_of_le_of_lt number (by decide)
  rw [magnitude, bits_ofMagnitude number]
  exact Nat.mod_eq_of_lt small

theorem positive_ofMagnitude {bits : Nat} (number : bits ≤ infinityBits) :
    isNegative (ofMagnitude bits) = false := by
  have small : bits < 2 ^ 63 := Nat.lt_of_le_of_lt number (by decide)
  rw [isNegative, bits_ofMagnitude number]
  exact decide_eq_false (Nat.not_le.mpr small)

theorem magnitude_neg {x : Float} (number : magnitude x ≤ infinityBits) :
    magnitude (-x) = magnitude x := by
  have magnitudeBound : magnitude x < 2 ^ 63 := Nat.mod_lt _ (by decide)
  have bits := bits_neg number
  change (-x).toBits.toNat % 2 ^ 63 = _
  rw [bits]
  split <;> omega

theorem negative_neg {bits : Nat} (number : bits ≤ infinityBits) :
    isNegative (-ofMagnitude bits) = true := by
  have bound : magnitude (ofMagnitude bits) ≤ infinityBits := by
    rwa [magnitude_ofMagnitude number]
  rw [isNegative, bits_neg bound, positive_ofMagnitude number]
  exact decide_eq_true (Nat.le_add_left _ _)

/-- Every number is that of its magnitude, or the negation of that one. -/
theorem signed {x : Float} (number : magnitude x ≤ infinityBits) :
    x = if isNegative x then -ofMagnitude (magnitude x) else ofMagnitude (magnitude x) := by
  apply eq_of_bits
  rw [bits_eq x]
  by_cases negative : isNegative x
  · rw [if_pos negative, if_pos negative, bits_neg]
    · rw [positive_ofMagnitude number, magnitude_ofMagnitude number]
      rfl
    · rw [magnitude_ofMagnitude number]
      exact number
  · rw [if_neg negative, if_neg negative, bits_ofMagnitude number]

end LuaCore.Double
