import LuaCore.Literal
import LuaCore.Proofs.Adding
import LuaCore.Proofs.Numeral

/-!
Rounding of natural numbers. A hexadecimal numeral and a decimal one that spell the same number are
read to the same double, the nearest one, unless the number is beyond all finite ones.
-/

namespace LuaCore

namespace Double

open Float.Model.UnpackedFloat

/-! Quotients. -/

/-- No multiple is closer than the rounded one, and if another one is as close then that is even. -/
theorem roundDiv_nearest {numerator unit : Nat} (positive : 0 < unit) (other : Nat) :
    let rounded := roundDiv numerator unit
    ((rounded * unit : Nat) - numerator : Int).natAbs ≤
        ((other * unit : Nat) - numerator : Int).natAbs ∧
      (((rounded * unit : Nat) - numerator : Int).natAbs =
        ((other * unit : Nat) - numerator : Int).natAbs → other ≠ rounded → rounded % 2 = 0) := by
  have split := Nat.div_add_mod' numerator unit
  have rest := Nat.mod_lt numerator positive
  have next : (numerator / unit + 1) * unit = numerator / unit * unit + unit := Nat.succ_mul ..
  simp only [roundDiv]
  generalize numerator / unit = low, numerator % unit = more at *
  have below : other < low → other * unit + unit ≤ low * unit := by
    intro less
    rw [← Nat.succ_mul]
    exact Nat.mul_le_mul_right unit less
  have above : low + 1 < other → (low + 1) * unit + unit ≤ other * unit := by
    intro less
    rw [← Nat.succ_mul]
    exact Nat.mul_le_mul_right unit less
  rcases Nat.lt_trichotomy other low with less | rfl | greater
  · have below := below less
    split <;> omega
  · split <;> omega
  · by_cases same : other = low + 1
    · subst same
      split <;> omega
    · have above := above (by omega)
      split <;> omega

variable {total bits significand doublings : Nat}

/-- No magnitude is closer to a number of steps, and if another one is as close then this is even. -/
structure Closest (total bits : Nat) : Prop where
  least : ∀ other, ((steps bits : Int) - total).natAbs ≤ ((steps other : Int) - total).natAbs
  even : ∀ other ≠ bits,
    ((steps bits : Int) - total).natAbs = ((steps other : Int) - total).natAbs → bits % 2 = 0

/-- A significand that is rounded up to one more digit is that of the next exponent. -/
theorem steps_rounded (bound : significand ≤ 2 ^ 53)
    (full : doublings = 0 ∨ 2 ^ 52 ≤ significand) :
    steps (doublings * 2 ^ 52 + significand) = significand * 2 ^ doublings := by
  rcases Nat.lt_or_eq_of_le bound with short | rfl
  · exact steps_canonical ⟨rfl, short, full⟩
  · have canonical : Canonical (2 ^ 52) (doublings + 1) (doublings * 2 ^ 52 + 2 ^ 53) :=
      ⟨by omega, by decide, .inr (Nat.le_refl _)⟩
    rw [steps_canonical canonical, Nat.pow_succ']
    ring

/-- The exponent is the one for 53 digits, or the least one if there are less. -/
theorem leading_doublings (total : Nat) : total < 2 ^ 53 * 2 ^ (total.log2 - 52) ∧
    (total.log2 - 52 = 0 ∨ 2 ^ 52 * 2 ^ (total.log2 - 52) ≤ total) := by
  have high : total < 2 ^ (total.log2 + 1) := Nat.lt_log2_self
  rw [← Nat.pow_add, ← Nat.pow_add]
  constructor
  · exact Nat.lt_of_lt_of_le high (Nat.pow_le_pow_right (by decide) (by omega))
  · by_cases small : total.log2 ≤ 52
    · exact .inl (by omega)
    · right
      have nonzero : total ≠ 0 := by
        rintro rfl
        simp at small
      rw [show 52 + (total.log2 - 52) = total.log2 by omega]
      exact Nat.log2_self_le nonzero

theorem roundDiv_bounds {numerator unit : Nat} (positive : 0 < unit) {low high : Nat}
    (above : low * unit ≤ numerator) (below : numerator < high * unit) :
    low ≤ roundDiv numerator unit ∧ roundDiv numerator unit ≤ high := by
  have floor := (Nat.le_div_iff_mul_le positive).mpr above
  have ceiling := (Nat.div_lt_iff_lt_mul positive).mpr below
  simp only [roundDiv]
  split <;> omega

/-- The magnitude that rounding would come to if there were no infinity. -/
def unbounded (total : Nat) : Nat :=
  (total.log2 - 52) * 2 ^ 52 + roundDiv total (2 ^ (total.log2 - 52))

theorem nearest_unbounded (total : Nat) : nearest total 1 = min (unbounded total) infinityBits := by
  simp [nearest, unbounded]

theorem steps_unbounded (total : Nat) :
    steps (unbounded total) =
      roundDiv total (2 ^ (total.log2 - 52)) * 2 ^ (total.log2 - 52) := by
  obtain ⟨high, low⟩ := leading_doublings total
  have power := Nat.two_pow_pos (total.log2 - 52)
  apply steps_rounded
  · exact (roundDiv_bounds power (Nat.zero_mul _ ▸ Nat.zero_le total) high).2
  · rcases low with none | low
    · exact .inl none
    · exact .inr (roundDiv_bounds power low high).1

theorem closest_unbounded (total : Nat) : Closest total (unbounded total) := by
  have power := Nat.two_pow_pos (total.log2 - 52)
  have worth := steps_unbounded total
  have parity : unbounded total % 2 = roundDiv total (2 ^ (total.log2 - 52)) % 2 := by
    rw [unbounded]
    omega
  -- A magnitude with a smaller exponent is below all multiples of the unit that are in question.
  have compares (other : Nat) :
      (∃ multiple, steps other = multiple * 2 ^ (total.log2 - 52)) ∨
        ((steps (unbounded total) : Int) - total).natAbs < ((steps other : Int) - total).natAbs := by
    obtain ⟨significand, doublings, canonical⟩ := canonical_exists other
    rw [steps_canonical canonical]
    by_cases less : doublings < total.log2 - 52
    · right
      obtain ⟨_, none | low⟩ := leading_doublings total
      · omega
      have small : significand * 2 ^ doublings < 2 ^ 52 * 2 ^ (total.log2 - 52) :=
        calc significand * 2 ^ doublings < 2 ^ 53 * 2 ^ doublings :=
              Nat.mul_lt_mul_of_pos_right canonical.short (Nat.two_pow_pos _)
          _ = 2 ^ 52 * 2 ^ (doublings + 1) := by ring
          _ ≤ 2 ^ 52 * 2 ^ (total.log2 - 52) :=
              Nat.mul_le_mul_left _ (Nat.pow_le_pow_right (by decide) less)
      have near := (@roundDiv_nearest total _ power (2 ^ 52)).1
      rw [worth]
      omega
    · left
      refine ⟨significand * 2 ^ (doublings - (total.log2 - 52)), ?_⟩
      rw [Nat.mul_assoc, ← Nat.pow_add]
      congr 2
      omega
  constructor
  · intro other
    rcases compares other with ⟨multiple, same⟩ | closer
    · rw [worth, same]
      exact (roundDiv_nearest power multiple).1
    · exact Nat.le_of_lt closer
  · intro other differs tie
    rcases compares other with ⟨multiple, same⟩ | closer
    · rw [parity]
      rw [worth, same] at tie
      refine (roundDiv_nearest power multiple).2 tie ?_
      rintro rfl
      exact differs (steps_strictMono.injective (same.trans worth.symm))
    · omega

/-! Where the finite numbers end. -/

theorem threshold_pow : overflowThreshold = 2 ^ 1024 - 2 ^ 970 := by
  unfold overflowThreshold
  generalize 1024 = high, 970 = low
  rfl

-- The exponent is bound by a quantifier, so that the power is not computed.
/-- The first number that is rounded to infinity is half a unit below the next power of two. -/
theorem threshold_eq : ∃ far half, far = 2045 ∧ 2 ^ far = 2 * half ∧
    overflowThreshold * stepsPerUnit = (2 ^ 54 - 1) * half :=
  ⟨2045, 2 ^ 2044, rfl, by decide +kernel, by decide +kernel⟩

theorem unbounded_infinity (total : Nat) :
    infinityBits ≤ unbounded total ↔ overflowThreshold * stepsPerUnit ≤ total := by
  obtain ⟨far, half, last, unit, threshold⟩ := threshold_eq
  obtain ⟨high, low⟩ := leading_doublings total
  rw [threshold, infinityBits_eq, unbounded]
  generalize total.log2 - 52 = doublings at *
  have power := Nat.two_pow_pos doublings
  rcases Nat.lt_trichotomy doublings far with less | rfl | more
  · have below : 2 ^ 53 * 2 ^ doublings ≤ 2 ^ 53 * half := by
      refine Nat.mul_le_mul_left _ ?_
      have double : 2 * 2 ^ doublings ≤ 2 ^ far := by
        rw [← Nat.pow_succ']
        exact Nat.pow_le_pow_right (by decide) less
      omega
    have rounded := (roundDiv_bounds power (Nat.zero_mul _ ▸ Nat.zero_le total) high).2
    omega
  · have low := low.resolve_left (by omega)
    rw [unit] at high low ⊢
    have positive : 0 < 2 * half := by omega
    have split := Nat.div_add_mod' total (2 * half)
    have rest := Nat.mod_lt total positive
    have short := (Nat.div_lt_iff_lt_mul positive).mpr high
    simp only [roundDiv]
    by_cases full : total / (2 * half) = 2 ^ 53 - 1
    · rw [full] at split ⊢
      split <;> omega
    · have below : total / (2 * half) * (2 * half) ≤ (2 ^ 53 - 2) * (2 * half) :=
        Nat.mul_le_mul_right _ (by omega)
      split <;> omega
  · have low := low.resolve_left (by omega)
    have above : 2 ^ 54 * half ≤ 2 ^ 52 * 2 ^ doublings := by
      have double : 2 * 2 ^ far ≤ 2 ^ doublings := by
        rw [← Nat.pow_succ']
        exact Nat.pow_le_pow_right (by decide) more
      omega
    have rounded := (roundDiv_bounds power low high).1
    omega

/-- A finite number that is nearest to a natural one. Of two that are as close it is the one with
the even significand. -/
structure Nearest (n : Nat) (x : Float) : Prop where
  finite : isFinite x
  unsigned : isNegative x = false
  least : ∀ y, isFinite y →
    (count x - n * stepsPerUnit).natAbs ≤ (count y - n * stepsPerUnit).natAbs
  even : ∀ y, isFinite y → count y ≠ count x →
    (count x - n * stepsPerUnit).natAbs = (count y - n * stepsPerUnit).natAbs → magnitude x % 2 = 0

theorem nearest_closest {n : Nat} (small : n < overflowThreshold) :
    nearestNat n < infinityBits ∧ Closest (n * stepsPerUnit) (nearestNat n) := by
  have finite : unbounded (n * stepsPerUnit) < infinityBits := by
    rw [← Nat.not_le, unbounded_infinity, Nat.not_le]
    exact Nat.mul_lt_mul_of_pos_right small unit_positive
  have same : nearestNat n = unbounded (n * stepsPerUnit) := by
    rw [nearestNat, nearest_unbounded, Nat.min_eq_left (Nat.le_of_lt finite)]
  rw [same]
  exact ⟨finite, closest_unbounded _⟩

theorem nearest_beyond {n : Nat} (beyond : overflowThreshold ≤ n) :
    nearestNat n = infinityBits := by
  rw [nearestNat, nearest_unbounded, Nat.min_eq_right]
  exact (unbounded_infinity _).mpr (Nat.mul_le_mul_right _ beyond)

theorem closest_nearest {n bits : Nat} (finite : bits < infinityBits)
    (closest : Closest (n * stepsPerUnit) bits) : Nearest n (ofMagnitude bits) := by
  have number := Nat.le_of_lt finite
  have unsigned : magnitude (ofMagnitude bits) = bits := magnitude_ofMagnitude number
  have worth : count (ofMagnitude bits) = steps bits := count_withSign .positive number
  have total : (n * stepsPerUnit : Int) = (n * stepsPerUnit : Nat) := (Int.natCast_mul ..).symm
  -- A negative number is not as close as zero.
  have closer (y : Float) : ∃ other, count y = steps other ∨ steps other = 0 ∧ count y < 0 := by
    unfold count
    cases sign y with
    | positive => exact ⟨_, .inl rfl⟩
    | negative =>
        refine ⟨0, ?_⟩
        have zero : steps 0 = 0 := rfl
        change -(steps (magnitude y) : Int) = steps 0 ∨ _ ∧ -(steps (magnitude y) : Int) < 0
        omega
  refine ⟨decide_eq_true (unsigned.trans_lt finite), positive_ofMagnitude number, ?_, ?_⟩
  · intro y _
    obtain ⟨other, away⟩ := closer y
    have least := closest.least other
    rw [worth, total]
    omega
  · intro y _ differs tie
    obtain ⟨other, away⟩ := closer y
    have least := closest.least other
    rw [worth, total] at tie
    rw [unsigned]
    rcases away with same | negative
    · refine closest.even other ?_ ?_
      · rintro rfl
        exact differs (same.trans worth.symm)
      · rw [tie, same]
    · omega

/-! Numerals of natural numbers. -/

/-- The text has nothing but digits, and spells the number by their places. -/
structure Spells (base : Nat) (value? : Char → Option Nat) (text : List Char) (n : Nat) : Prop where
  nonempty : text ≠ []
  digits : ∃ digits : List Nat, text.map value? = digits.map some ∧
    Nat.ofDigits base digits.reverse = n

theorem foldl_digits {base : Nat} {value? : Char → Option Nat} {text : List Char}
    {digits : List Nat} (same : text.map value? = digits.map some) :
    text.foldl (fun value c => base * value + (value? c).getD 0) 0 =
      Nat.ofDigits base digits.reverse := by
  induction text using List.reverseRecOn generalizing digits with
  | nil =>
      obtain rfl : digits = [] := by simpa using same.symm
      rfl
  | append_singleton text c ih =>
      induction digits using List.reverseRecOn with
      | nil => simp at same
      | append_singleton digits digit _ =>
          simp only [List.map_append, List.map_singleton] at same
          obtain ⟨front, last⟩ := List.append_inj' same rfl
          rw [List.foldl_append, ih front, List.reverse_append, List.reverse_singleton,
            List.singleton_append, Nat.ofDigits_cons, List.foldl_cons, List.foldl_nil,
            List.singleton_inj.mp last]
          simp [Nat.add_comm]

theorem hexadecimal_value {text : List Char} {n : Nat} (spells : Spells 16 Text.hexValue? text n) :
    hexadecimalValue text = n := by
  obtain ⟨digits, same, worth⟩ := spells.digits
  exact (foldl_digits same).trans worth

theorem decimal_value {text : List Char} {n : Nat} (spells : Spells 10 Text.digitValue? text n) :
    decimalValue text = n := by
  obtain ⟨digits, same, worth⟩ := spells.digits
  exact (foldl_digits same).trans worth

theorem spelled_digits {base : Nat} {value? : Char → Option Nat} {text : List Char} {n : Nat}
    (spells : Spells base value? text n) : ∀ c ∈ text, (value? c).isSome := by
  obtain ⟨digits, same, _⟩ := spells.digits
  intro c member
  have found : value? c ∈ digits.map some := same ▸ List.mem_map_of_mem member
  obtain ⟨digit, _, found⟩ := List.mem_map.mp found
  rw [← found]
  rfl

theorem decimal_spelled {text : List Char} {n : Nat} (spells : Spells 10 Text.digitValue? text n) :
    Numeral.decimal text = ⟨n, 0⟩ ∧ hexadecimalDigits? text = none := by
  have digits : ∀ c ∈ text, Text.isDecimalDigit c := spelled_digits spells
  constructor
  · have whole : text.span Text.isDecimalDigit = (text, []) := by
      rw [List.span_eq_takeWhile_dropWhile, List.takeWhile_eq_self_iff.mpr digits,
        List.dropWhile_eq_nil_iff.mpr digits]
    simp only [Numeral.decimal, whole, fractionDigits, writtenExponent, List.append_nil,
      decimal_value spells]
    rfl
  · unfold hexadecimalDigits?
    split
    · next mark rest =>
        have digit := digits mark (by simp)
        refine if_neg ?_
        rintro (rfl | rfl) <;> exact absurd digit (by decide)
    · rfl

-- The exponent is bound by a quantifier, so that the power is not computed.
theorem threshold_le : ∃ far, far = 400 ∧ overflowThreshold ≤ 10 ^ far :=
  ⟨400, rfl, by decide +kernel⟩

/-- A natural number is read to the nearest magnitude, however many digits it has. -/
theorem toMagnitude_natural (n : Nat) : Decimal.toMagnitude ⟨n, 0⟩ = nearestNat n := by
  obtain ⟨far, same, bound⟩ := threshold_le
  unfold Decimal.toMagnitude
  by_cases zero : n = 0
  · have none : nearest 0 1 = 0 := by decide
    rw [if_pos (.inl zero), zero, nearestNat, Nat.zero_mul, none]
  · simp only [zero, false_or, Int.zero_add]
    rw [if_neg (by omega)]
    split
    · next huge =>
        have leading := Decimal.digitCount_le (Nat.pos_of_ne_zero zero)
        have power : 10 ^ far ≤ 10 ^ (Decimal.digitCount n - 1) :=
          Nat.pow_le_pow_right (by decide) (by omega)
        exact (nearest_beyond (bound.trans (power.trans leading))).symm
    · simp [Decimal.stepQuotient, nearestNat]

/-! Both spellings. -/

theorem read_decimal {text : List Char} {n : Nat} (spells : Spells 10 Text.digitValue? text n) :
    Literal.number (String.ofList text) = .ok (ofMagnitude (nearestNat n)) := by
  obtain ⟨decimal, notHexadecimal⟩ := decimal_spelled spells
  rw [Literal.number, String.toList_ofList, Numeral.read?, notHexadecimal, decimal,
    toMagnitude_natural]

theorem read_hexadecimal {mark : Char} (marks : mark = 'x' ∨ mark = 'X') {text : List Char}
    {n : Nat} (spells : Spells 16 Text.hexValue? text n) :
    Literal.number (String.ofList ('0' :: mark :: text)) =
      if n < overflowThreshold then .ok (ofMagnitude (nearestNat n)) else .error .numeral := by
  rw [Literal.number, String.toList_ofList, Numeral.read?, hexadecimalDigits?, if_pos marks]
  simp only [hexadecimal_value spells]
  by_cases small : n < overflowThreshold
  · rw [if_pos small, if_pos small]
  · rw [if_neg small, if_neg small]

end Double

open Double in
/-- A hexadecimal numeral and a decimal one that spell the same number stand for the same double,
the one nearest to the number. Beyond the finite numbers the decimal one stands for infinity, and
the hexadecimal one is a fault. -/
theorem spellings_agree {n : Nat} {mark : Char} (marks : mark = 'x' ∨ mark = 'X')
    {hexadecimal decimal : List Char} (spells : Spells 16 Text.hexValue? hexadecimal n)
    (spells' : Spells 10 Text.digitValue? decimal n) :
    (n < 2 ^ 1024 - 2 ^ 970 → ∃ x, Nearest n x ∧
      Literal.number (String.ofList ('0' :: mark :: hexadecimal)) = .ok x ∧
      Literal.number (String.ofList decimal) = .ok x) ∧
    (2 ^ 1024 - 2 ^ 970 ≤ n → ∃ fault x, fault.name = "OverflowError" ∧
      Literal.number (String.ofList ('0' :: mark :: hexadecimal)) = .error fault ∧
      isInfinite x ∧ isNegative x = false ∧ Literal.number (String.ofList decimal) = .ok x) := by
  rw [read_hexadecimal marks spells, read_decimal spells', ← threshold_pow]
  constructor
  · intro small
    obtain ⟨finite, closest⟩ := nearest_closest small
    exact ⟨_, closest_nearest finite closest, if_pos small, rfl⟩
  · intro beyond
    have infinity : nearestNat n = infinityBits := nearest_beyond beyond
    have number : infinityBits ≤ infinityBits := Nat.le_refl _
    rw [infinity]
    exact ⟨.numeral, _, rfl, if_neg (Nat.not_lt.mpr beyond),
      decide_eq_true (magnitude_ofMagnitude number), positive_ofMagnitude number, rfl⟩

open Double in
/-- A number that is halfway between two finite ones, with zeros in front and digits of two scripts. -/
theorem spellings_agree_tie : ∃ x, Nearest (2 ^ 53 + 1) x ∧
    Literal.number "0X0020000000000001" = .ok x ∧ Literal.number "009007199254740٩٩٣" = .ok x := by
  have spells : Spells 16 Text.hexValue? "0020000000000001".toList (2 ^ 53 + 1) :=
    ⟨by decide, [0, 0, 2, 0, 0, 0, 0, 0, 0, 0, 0, 0, 0, 0, 0, 1], by decide, by decide⟩
  have spells' : Spells 10 Text.digitValue? "009007199254740٩٩٣".toList (2 ^ 53 + 1) :=
    ⟨by decide, [0, 0, 9, 0, 0, 7, 1, 9, 9, 2, 5, 4, 7, 4, 0, 9, 9, 3], by decide, by decide⟩
  have small : 2 ^ 53 + 1 < overflowThreshold := by decide +kernel
  exact (spellings_agree (.inr rfl) spells spells').1 (threshold_pow ▸ small)

end LuaCore
