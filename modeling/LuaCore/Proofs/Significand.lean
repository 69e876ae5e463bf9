import LuaCore.Proofs.Binary

/-!
Significands. Every magnitude is a number of at most 53 binary digits that is doubled some number of
times, and so are the natural numbers up to 2^53.
-/

namespace LuaCore.Double

/-- A magnitude by its significand and the number of its doublings. A significand that is doubled
has all of its 53 digits. -/
structure Canonical (significand doublings bits : Nat) : Prop where
  whole : doublings * 2 ^ 52 + significand = bits
  short : significand < 2 ^ 53
  full : doublings = 0 ∨ 2 ^ 52 ≤ significand

theorem canonical_exists (bits : Nat) :
    ∃ significand doublings, Canonical significand doublings bits := by
  by_cases subnormal : bits / 2 ^ 52 = 0
  · exact ⟨bits, 0, by omega, by omega, .inl rfl⟩
  · exact ⟨2 ^ 52 + bits % 2 ^ 52, bits / 2 ^ 52 - 1, by omega, by omega, .inr (by omega)⟩

section

variable {significand doublings bits significand' doublings' bits' : Nat}

theorem steps_canonical (canonical : Canonical significand doublings bits) :
    steps bits = significand * 2 ^ doublings := by
  obtain ⟨rfl, short, full⟩ := canonical
  by_cases subnormal : (doublings * 2 ^ 52 + significand) / 2 ^ 52 = 0
  · have same : steps (doublings * 2 ^ 52 + significand) = doublings * 2 ^ 52 + significand :=
      if_pos subnormal
    have none : doublings = 0 := by omega
    rw [same, none, Nat.zero_mul, Nat.zero_add, Nat.pow_zero, Nat.mul_one]
  · have same : steps (doublings * 2 ^ 52 + significand) =
        (2 ^ 52 + (doublings * 2 ^ 52 + significand) % 2 ^ 52) *
          2 ^ ((doublings * 2 ^ 52 + significand) / 2 ^ 52 - 1) := if_neg subnormal
    have digits : 2 ^ 52 + (doublings * 2 ^ 52 + significand) % 2 ^ 52 = significand := by omega
    have exponent : (doublings * 2 ^ 52 + significand) / 2 ^ 52 - 1 = doublings := by omega
    rw [same, digits, exponent]

theorem canonical_lt (canonical : Canonical significand doublings bits)
    (canonical' : Canonical significand' doublings' bits') :
    bits < bits' ↔ doublings < doublings' ∨ doublings = doublings' ∧ significand < significand' := by
  obtain ⟨rfl, short, full⟩ := canonical
  obtain ⟨rfl, short', full'⟩ := canonical'
  omega

theorem canonical_unique (canonical : Canonical significand doublings bits)
    (canonical' : Canonical significand' doublings' bits) :
    significand = significand' ∧ doublings = doublings' := by
  obtain ⟨rfl, short, full⟩ := canonical
  obtain ⟨whole, short', full'⟩ := canonical'
  omega

theorem canonical_positive (canonical : Canonical significand doublings bits) :
    0 < significand ↔ 0 < bits := by
  obtain ⟨rfl, short, full⟩ := canonical
  omega

theorem canonical_finite (canonical : Canonical significand doublings bits) :
    bits < infinityBits ↔ doublings < 2046 := by
  obtain ⟨rfl, short, full⟩ := canonical
  rw [infinityBits_eq]
  omega

theorem log2_shift (positive : 0 < significand) (doublings : Nat) :
    (significand * 2 ^ doublings).log2 = significand.log2 + doublings := by
  have low := Nat.log2_self_le (Nat.ne_of_gt positive)
  have high : significand < 2 ^ (significand.log2 + 1) := Nat.lt_log2_self
  apply log2_between
  · rw [Nat.pow_add]
    exact Nat.mul_le_mul_right _ low
  · rw [Nat.add_right_comm, Nat.pow_add]
    exact Nat.mul_lt_mul_of_pos_right high (Nat.two_pow_pos doublings)

/-- The doublings are those digits of the steps that 53 digits leave over. -/
theorem log2_canonical (canonical : Canonical significand doublings bits) :
    (significand * 2 ^ doublings).log2 - 52 = doublings := by
  obtain ⟨_, short, full⟩ := canonical
  rcases Nat.eq_zero_or_pos significand with rfl | positive
  · rw [Nat.zero_mul, Nat.log2_zero]
    omega
  · have less := (Nat.log2_lt (Nat.ne_of_gt positive)).mpr short
    rw [log2_shift positive]
    rcases full with none | full
    · omega
    · have leading : significand.log2 = 52 := log2_between full short
      omega

theorem steps_zero (zero : steps bits = 0) : bits = 0 := by
  obtain ⟨significand, doublings, canonical⟩ := canonical_exists bits
  rw [steps_canonical canonical] at zero
  have nothing := (Nat.mul_eq_zero.mp zero).resolve_right (Nat.ne_of_gt (Nat.two_pow_pos _))
  by_contra some
  exact absurd nothing (Nat.ne_of_gt ((canonical_positive canonical).mpr (Nat.pos_of_ne_zero some)))

-- The exponent is bound by a quantifier here and below, so that the power is not computed.
theorem steps_lt {reach : Nat} (finite : bits < infinityBits) (far : 2098 ≤ reach) :
    steps bits < 2 ^ reach := by
  obtain ⟨significand, doublings, canonical⟩ := canonical_exists bits
  have few := (canonical_finite canonical).mp finite
  rw [steps_canonical canonical]
  calc significand * 2 ^ doublings < 2 ^ 53 * 2 ^ doublings :=
        Nat.mul_lt_mul_of_pos_right canonical.short (Nat.two_pow_pos _)
    _ = 2 ^ (53 + doublings) := (Nat.pow_add ..).symm
    _ ≤ 2 ^ reach := Nat.pow_le_pow_right (by decide) (by omega)

end

theorem steps_strictMono : StrictMono steps := by
  intro bits bits' less
  obtain ⟨significand, doublings, canonical⟩ := canonical_exists bits
  obtain ⟨significand', doublings', canonical'⟩ := canonical_exists bits'
  rw [steps_canonical canonical, steps_canonical canonical']
  rcases (canonical_lt canonical canonical').mp less with lower | ⟨rfl, smaller⟩
  · have all : 2 ^ 52 ≤ significand' := canonical'.full.resolve_left (by omega)
    calc significand * 2 ^ doublings < 2 ^ 53 * 2 ^ doublings :=
          Nat.mul_lt_mul_of_pos_right canonical.short (Nat.two_pow_pos _)
      _ = 2 ^ 52 * 2 ^ (doublings + 1) := by ring
      _ ≤ 2 ^ 52 * 2 ^ doublings' :=
          Nat.mul_le_mul_left _ (Nat.pow_le_pow_right (by decide) lower)
      _ ≤ significand' * 2 ^ doublings' := Nat.mul_le_mul_right _ all
  · exact Nat.mul_lt_mul_of_pos_right smaller (Nat.two_pow_pos _)

/-! Natural numbers. -/

/-- A natural number with at most 53 binary digits is a significand with an exponent. -/
theorem significand_natural {n : Nat} (positive : 0 < n) (small : n ≤ 2 ^ 53) :
    ∃ exponent significand, exponent ≤ 53 ∧ 2 ^ 52 ≤ significand ∧ significand < 2 ^ 53 ∧
      n * 2 ^ 52 = significand * 2 ^ exponent := by
  by_cases last : n = 2 ^ 53
  · exact ⟨53, 2 ^ 52, Nat.le_refl 53, Nat.le_refl _, by decide, by rw [last, Nat.mul_comm]⟩
  · have nonzero := Nat.ne_of_gt positive
    have least := Nat.log2_self_le nonzero
    have less : n < 2 ^ (n.log2 + 1) := Nat.lt_log2_self
    have short : n.log2 < 53 := (Nat.log2_lt nonzero).mpr (by omega)
    have widths : 2 ^ (52 - n.log2) * 2 ^ n.log2 = 2 ^ 52 := by
      rw [← Nat.pow_add]
      congr 1
      omega
    refine ⟨n.log2, n * 2 ^ (52 - n.log2), Nat.le_of_lt short, ?_, ?_, ?_⟩
    · rw [← widths, Nat.mul_comm]
      exact Nat.mul_le_mul_right _ least
    · calc n * 2 ^ (52 - n.log2) < 2 ^ (n.log2 + 1) * 2 ^ (52 - n.log2) :=
            Nat.mul_lt_mul_of_pos_right less (Nat.two_pow_pos _)
        _ = 2 ^ 53 := by
            rw [← Nat.pow_add]
            congr 1
            omega
    · rw [Nat.mul_assoc, widths]

theorem steps_natural {n : Nat} (small : n ≤ 2 ^ 53) :
    ∃ bits, bits < infinityBits ∧ steps bits = n * stepsPerUnit := by
  rcases Nat.eq_zero_or_pos n with rfl | positive
  · exact ⟨0, by decide, (Nat.zero_mul _).symm⟩
  · obtain ⟨exponent, significand, bound, full, short, same⟩ := significand_natural positive small
    obtain ⟨bias, reach, unit⟩ : ∃ bias, bias = 1022 ∧ stepsPerUnit = 2 ^ (52 + bias) :=
      ⟨1022, rfl, by decide +kernel⟩
    have canonical : Canonical significand (exponent + bias) _ := ⟨rfl, short, .inr full⟩
    refine ⟨_, (canonical_finite canonical).mpr (by omega), ?_⟩
    rw [steps_canonical canonical, Nat.pow_add, ← Nat.mul_assoc, ← same, Nat.mul_assoc,
      ← Nat.pow_add, unit]

end LuaCore.Double
