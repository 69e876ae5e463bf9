import Mathlib.Data.List.TakeDrop
import LuaCore.Double.Numeral
import LuaCore.Proofs.Significand

/-!
Numerals: what the digits of a numeral add up to, and which numeral is read to a given number.
-/

namespace LuaCore

namespace Double

/-! Magnitudes that are hit exactly. -/

theorem roundDiv_exact (n : Nat) {denominator : Nat} (positive : 0 < denominator) :
    roundDiv (n * denominator) denominator = n := by
  simp [roundDiv, Nat.mul_div_cancel n positive, positive]

/-- A magnitude is the nearest one to its own steps. -/
theorem nearest_steps {bits : Nat} (finite : bits < infinityBits) {scale : Nat}
    (positive : 0 < scale) : nearest (steps bits * scale) scale = bits := by
  obtain ⟨significand, doublings, canonical⟩ := canonical_exists bits
  have leading := log2_canonical canonical
  rw [← steps_canonical canonical] at leading
  have exact' : roundDiv (steps bits * scale) (scale * Nat.pow 2 doublings) = significand := by
    rw [steps_canonical canonical, Nat.mul_assoc, Nat.mul_comm (2 ^ doublings)]
    exact roundDiv_exact _ (Nat.mul_pos positive (Nat.two_pow_pos doublings))
  have within : doublings * Nat.pow 2 52 + significand = bits := canonical.whole
  simp only [nearest, Nat.mul_div_cancel _ positive, leading, exact', within]
  exact Nat.min_eq_left (Nat.le_of_lt finite)

section

variable {numerator denominator scale : Nat}

theorem roundDiv_scale (positive : 0 < scale) :
    roundDiv (numerator * scale) (denominator * scale) = roundDiv numerator denominator := by
  have less : 2 * (numerator % denominator * scale) < denominator * scale ↔
      2 * (numerator % denominator) < denominator := by
    rw [← Nat.mul_assoc]
    exact Nat.mul_lt_mul_right positive
  have same : 2 * (numerator % denominator * scale) = denominator * scale ↔
      2 * (numerator % denominator) = denominator := by
    rw [← Nat.mul_assoc]
    exact Nat.mul_left_inj (Nat.ne_of_gt positive)
  simp only [roundDiv, Nat.mul_div_mul_right _ _ positive, Nat.mul_mod_mul_right, less, same]

theorem nearest_scale (positive : 0 < scale) :
    nearest (numerator * scale) (denominator * scale) = nearest numerator denominator := by
  simp only [nearest, Nat.mul_div_mul_right _ _ positive, Nat.mul_right_comm denominator scale,
    roundDiv_scale positive]

end

theorem nearest_le (numerator denominator : Nat) : nearest numerator denominator ≤ infinityBits :=
  Nat.min_le_right _ _

end Double

namespace Decimal

theorem lt_digitCount (n : Nat) : n < 10 ^ digitCount n := by
  induction n using digitCount.induct with
  | case1 n short =>
      rw [digitCount, if_pos short]
      exact short
  | case2 n long ih =>
      rw [digitCount, if_neg long, Nat.pow_succ]
      omega

theorem digitCount_le {n : Nat} (positive : 0 < n) : 10 ^ (digitCount n - 1) ≤ n := by
  induction n using digitCount.induct with
  | case1 n short =>
      rw [digitCount, if_pos short]
      exact positive
  | case2 n long ih =>
      have below := ih (by omega)
      have more : digitCount (n / 10) ≠ 0 := by
        rw [digitCount]
        split <;> omega
      obtain ⟨count, same⟩ := Nat.exists_eq_succ_of_ne_zero more
      rw [same] at below
      rw [digitCount, if_neg long, same, Nat.add_sub_cancel, Nat.pow_succ]
      rw [Nat.succ_sub_one] at below
      omega

theorem unit_le : Double.stepsPerUnit ≤ 10 ^ 400 := by
  decide +kernel

theorem finite_le : ∃ reach, 2098 ≤ reach ∧ 2 ^ reach ≤ 10 ^ 400 * Double.stepsPerUnit :=
  ⟨2098, Nat.le_refl _, by decide +kernel⟩

/-- No finite magnitude has its leading digit far out. -/
theorem leading_within {decimal : Decimal} {bits : Nat} (finite : bits < Double.infinityBits)
    (positive : 0 < decimal.coefficient)
    (worth : decimal.stepQuotient.1 = Double.steps bits * decimal.stepQuotient.2) :
    ¬ decimal.exponent + digitCount decimal.coefficient < -400 ∧
      ¬ 400 < decimal.exponent + digitCount decimal.coefficient := by
  obtain ⟨coefficient, exponent⟩ := decimal
  have low : 10 ^ (digitCount coefficient - 1) ≤ coefficient := digitCount_le positive
  have high : coefficient < 10 ^ digitCount coefficient := lt_digitCount coefficient
  obtain ⟨doublings, enough, bound⟩ := finite_le
  have small := Double.steps_lt finite enough
  have unit := unit_le
  have unitPositive : 0 < Double.stepsPerUnit := by decide +kernel
  simp only [stepQuotient, Nat.pow_eq] at worth ⊢
  generalize Double.stepsPerUnit = units at worth bound unit unitPositive
  -- The power of ten is not to be computed.
  obtain ⟨reach, far⟩ : ∃ reach : Nat, reach = 400 := ⟨400, rfl⟩
  rw [← far] at unit bound
  by_cases whole : 0 ≤ exponent
  · simp only [if_pos whole, Nat.mul_one] at worth
    refine ⟨by omega, ?_⟩
    intro out
    have beyond : 10 ^ reach ≤ coefficient * 10 ^ exponent.toNat :=
      calc 10 ^ reach ≤ 10 ^ (digitCount coefficient - 1 + exponent.toNat) :=
            Nat.pow_le_pow_right (by decide) (by omega)
        _ = 10 ^ (digitCount coefficient - 1) * 10 ^ exponent.toNat := Nat.pow_add ..
        _ ≤ coefficient * 10 ^ exponent.toNat := Nat.mul_le_mul_right _ low
    have above : 10 ^ reach * units ≤ Double.steps bits := by
      rw [← worth]
      exact Nat.mul_le_mul_right units beyond
    exact Nat.lt_irrefl _ (Nat.lt_of_lt_of_le small (Nat.le_trans bound above))
  · simp only [if_neg whole] at worth
    have power : 0 < 10 ^ (-exponent).toNat := Nat.pow_pos (by decide)
    refine ⟨?_, ?_⟩
    · intro out
      have some : 0 < Double.steps bits := by
        apply Nat.pos_of_ne_zero
        intro zero
        rw [zero, Nat.zero_mul] at worth
        exact absurd worth (Nat.ne_of_gt (Nat.mul_pos positive unitPositive))
      have below : coefficient * units < 10 ^ (-exponent).toNat :=
        calc coefficient * units
            < 10 ^ digitCount coefficient * units :=
              Nat.mul_lt_mul_of_pos_right high unitPositive
          _ ≤ 10 ^ digitCount coefficient * 10 ^ reach := Nat.mul_le_mul_left _ unit
          _ = 10 ^ (digitCount coefficient + reach) := (Nat.pow_add ..).symm
          _ ≤ 10 ^ (-exponent).toNat := Nat.pow_le_pow_right (by decide) (by omega)
      have above : 10 ^ (-exponent).toNat ≤ coefficient * units :=
        worth ▸ Nat.le_mul_of_pos_left _ some
      exact Nat.lt_irrefl _ (Nat.lt_of_lt_of_le below above)
    · intro out
      have beyond : 10 ^ (-exponent).toNat * 10 ^ reach ≤ coefficient :=
        calc 10 ^ (-exponent).toNat * 10 ^ reach = 10 ^ ((-exponent).toNat + reach) :=
              (Nat.pow_add ..).symm
          _ ≤ 10 ^ (digitCount coefficient - 1) := Nat.pow_le_pow_right (by decide) (by omega)
          _ ≤ coefficient := low
      have above : 10 ^ (-exponent).toNat * (10 ^ reach * units) ≤
          10 ^ (-exponent).toNat * Double.steps bits := by
        rw [← Nat.mul_assoc, Nat.mul_comm _ (Double.steps bits), ← worth]
        exact Nat.mul_le_mul_right _ beyond
      have above := Nat.le_of_mul_le_mul_left above power
      exact Nat.lt_irrefl _ (Nat.lt_of_lt_of_le small (Nat.le_trans bound above))

/-- A decimal that is worth a finite magnitude is read to it. -/
theorem toMagnitude_exact {decimal : Decimal} {bits : Nat} (finite : bits < Double.infinityBits)
    (worth : decimal.stepQuotient.1 = Double.steps bits * decimal.stepQuotient.2) :
    decimal.toMagnitude = bits := by
  have scale : 0 < decimal.stepQuotient.2 := by
    unfold stepQuotient
    split
    · exact Nat.one_pos
    · exact Nat.pow_pos (by decide)
  have near : Double.nearest decimal.stepQuotient.1 decimal.stepQuotient.2 = bits := by
    rw [worth]
    exact Double.nearest_steps finite scale
  by_cases nothing : decimal.coefficient = 0
  · have zero : Double.steps bits = 0 := by
      have product : decimal.stepQuotient.1 = 0 := by
        unfold stepQuotient
        split <;> simp [nothing]
      rw [product] at worth
      rcases Nat.mul_eq_zero.mp worth.symm with zero | zero
      · exact zero
      · omega
    rw [toMagnitude, if_pos (.inl nothing), Double.steps_zero zero]
  · obtain ⟨tiny, huge⟩ := leading_within finite (Nat.pos_of_ne_zero nothing) worth
    rw [toMagnitude, if_neg (not_or.mpr ⟨nothing, tiny⟩), if_neg huge]
    exact near

/-! Decimals that are worth the same. -/

theorem digitCount_shift {n : Nat} (positive : 0 < n) (shift : Nat) :
    digitCount (n * 10 ^ shift) = digitCount n + shift := by
  induction shift with
  | zero => simp
  | succ shift ih =>
      have power : 0 < 10 ^ shift := Nat.pow_pos (by decide)
      have long : ¬ n * 10 ^ shift * 10 < 10 := by
        have some := Nat.mul_pos positive power
        omega
      rw [Nat.pow_succ, ← Nat.mul_assoc, digitCount, if_neg long,
        Nat.mul_div_cancel _ (by decide), ih]
      rfl

/-- Zeros behind the digits only scale the quotient. -/
theorem stepQuotient_shift (coefficient shift : Nat) (exponent : Int) : ∃ scale, 0 < scale ∧
    stepQuotient ⟨coefficient * 10 ^ shift, exponent⟩ =
      ((stepQuotient ⟨coefficient, exponent + shift⟩).1 * scale,
        (stepQuotient ⟨coefficient, exponent + shift⟩).2 * scale) := by
  have power (n : Nat) : 0 < 10 ^ n := Nat.pow_pos (by decide)
  unfold stepQuotient
  generalize Double.stepsPerUnit = units
  simp only [Nat.pow_eq]
  by_cases whole : 0 ≤ exponent
  · refine ⟨1, Nat.one_pos, ?_⟩
    have total : (exponent + shift).toNat = shift + exponent.toNat := by omega
    rw [if_pos whole, if_pos (by omega), total, Nat.pow_add]
    simp [Nat.mul_assoc]
  · rw [if_neg whole]
    by_cases within : 0 ≤ exponent + shift
    · refine ⟨10 ^ (-exponent).toNat, power _, ?_⟩
      have total : shift = (exponent + shift).toNat + (-exponent).toNat := by omega
      have power : 10 ^ shift = 10 ^ (exponent + shift).toNat * 10 ^ (-exponent).toNat := by
        rw [← Nat.pow_add, ← total]
      rw [if_pos within, Nat.one_mul, power, ← Nat.mul_assoc, Nat.mul_right_comm]
    · refine ⟨10 ^ shift, power _, ?_⟩
      have total : (-exponent).toNat = (-(exponent + shift)).toNat + shift := by omega
      rw [if_neg within, total, Nat.pow_add, Nat.mul_right_comm]

/-- Zeros behind the digits count as the exponent does. -/
theorem toMagnitude_shift (coefficient shift : Nat) (exponent : Int) :
    toMagnitude ⟨coefficient * 10 ^ shift, exponent⟩ =
      toMagnitude ⟨coefficient, exponent + shift⟩ := by
  rcases Nat.eq_zero_or_pos coefficient with rfl | positive
  · simp [toMagnitude]
  · have nonzero : coefficient * 10 ^ shift ≠ 0 :=
      Nat.ne_of_gt (Nat.mul_pos positive (Nat.pow_pos (by decide)))
    have leading : exponent + (digitCount coefficient + shift : Nat) =
        exponent + shift + digitCount coefficient := by omega
    obtain ⟨scale, some, scaled⟩ := stepQuotient_shift coefficient shift exponent
    unfold toMagnitude
    simp only [digitCount_shift positive, leading, nonzero, Nat.ne_of_gt positive, scaled,
      Double.nearest_scale some]

theorem coefficient_positive {decimal : Decimal} (nonzero : decimal.toMagnitude ≠ 0) :
    0 < decimal.coefficient := by
  apply Nat.pos_of_ne_zero
  intro zero
  exact nonzero (by simp [toMagnitude, zero])

end Decimal

/-! Digits. -/

namespace Text

/-- The other scripts have their digits far above those of the first one. -/
theorem digitValue_low {c : Char} (low : c.toNat < 0x660) :
    digitValue? c = if 0x30 ≤ c.toNat ∧ c.toNat ≤ 0x39 then some (c.toNat - 0x30) else none := by
  have others : (decimalDigits.drop 1).find?
      (fun range => range.1 ≤ c.toNat && c.toNat ≤ range.2) = none := by
    apply List.find?_eq_none.mpr
    intro range member
    have above : ∀ range ∈ decimalDigits.drop 1, 0x660 ≤ range.1 := by decide
    have start := above range member
    simp only [Bool.and_eq_true, decide_eq_true_eq, not_and]
    omega
  have split : decimalDigits = (0x30, 0x39) :: decimalDigits.drop 1 := rfl
  rw [digitValue?, split, List.find?_cons, others]
  by_cases inside : 0x30 ≤ c.toNat ∧ c.toNat ≤ 0x39
  · have found : (decide (0x30 ≤ c.toNat) && decide (c.toNat ≤ 0x39)) = true := by
      simpa using inside
    have small : (c.toNat - 0x30) % 10 = c.toNat - 0x30 := Nat.mod_eq_of_lt (by omega)
    rw [if_pos inside, found]
    exact congrArg some small
  · have missed : (decide (0x30 ≤ c.toNat) && decide (c.toNat ≤ 0x39)) = false := by
      simpa using inside
    rw [if_neg inside, missed]
    rfl

theorem digit_code {c : Char} : c.isDigit ↔ 0x30 ≤ c.toNat ∧ c.toNat ≤ 0x39 := by
  simp only [Char.isDigit, ge_iff_le, Bool.and_eq_true, decide_eq_true_eq, UInt32.le_iff_toNat_le]
  exact Iff.rfl

theorem digitValue_digit {c : Char} (digit : c.isDigit) :
    digitValue? c = some (c.toNat - 0x30) := by
  have code := digit_code.mp digit
  rw [digitValue_low (by omega), if_pos code]

theorem digit_decimal {c : Char} (digit : c.isDigit) : isDecimalDigit c := by
  rw [isDecimalDigit, digitValue_digit digit]
  rfl

theorem low_decimal {c : Char} (low : c.toNat < 0x660) (other : ¬ c.isDigit) :
    ¬ isDecimalDigit c := by
  rw [isDecimalDigit, digitValue_low low, if_neg (fun code => other (digit_code.mpr code))]
  exact Bool.false_ne_true

end Text

namespace Double

/-- A row of digits of the first script. -/
def Digits (text : List Char) : Prop :=
  ∀ c ∈ text, c.isDigit

instance (text : List Char) : Decidable (Digits text) :=
  List.decidableBAll (fun c : Char => c.isDigit = true) text

theorem digits_append {first second : List Char} (digits : Digits first)
    (digits' : Digits second) : Digits (first ++ second) := by
  intro c member
  rcases List.mem_append.mp member with member | member
  · exact digits c member
  · exact digits' c member

theorem toDigits_digits (n : Nat) : Digits (Nat.toDigits 10 n) :=
  fun _ member => Nat.isDigit_of_mem_toDigits (by decide) (by decide) member

theorem decimalValue_digits {text : List Char} (digits : Digits text) :
    decimalValue text = Nat.ofDigitChars 10 text 0 := by
  have general : ∀ subtotal,
      text.foldl (fun value c => 10 * value + (Text.digitValue? c).getD 0) subtotal =
        Nat.ofDigitChars 10 text subtotal := by
    induction text with
    | nil => exact fun _ => rfl
    | cons c rest ih =>
        intro subtotal
        have behind : Digits rest :=
          fun other member => digits other (List.mem_cons_of_mem _ member)
        rw [List.foldl_cons, ih behind, Text.digitValue_digit (digits c List.mem_cons_self),
          Nat.ofDigitChars_cons]
        rfl
  exact general 0

theorem decimalValue_toDigits (n : Nat) : decimalValue (Nat.toDigits 10 n) = n := by
  rw [decimalValue_digits (toDigits_digits n), Nat.ofDigitChars_ten_toDigits]

theorem decimalValue_append (first second : List Char) :
    decimalValue (first ++ second) =
      decimalValue first * 10 ^ second.length + decimalValue second := by
  induction second using List.reverseRecOn with
  | nil => simp [decimalValue]
  | append_singleton second c ih =>
      have last (text : List Char) : decimalValue (text ++ [c]) =
          10 * decimalValue text + (Text.digitValue? c).getD 0 := by simp [decimalValue]
      rw [← List.append_assoc, last, last, ih, List.length_append, List.length_singleton,
        Nat.pow_succ]
      ring

/-- The parts of a decimal numeral: the digits in front of the point, those behind it, and the
exponent with its sign. -/
structure Written where
  whole : List Char
  fraction : List Char := []
  power : Option (Bool × List Char) := none

namespace Written

def fractionText : List Char → List Char
  | [] => []
  | fraction => '.' :: fraction

def powerText : Option (Bool × List Char) → List Char
  | none => []
  | some (negative, digits) => 'e' :: (if negative then '-' else '+') :: digits

def powerValue : Option (Bool × List Char) → Int
  | none => 0
  | some (negative, digits) =>
      if negative then -(decimalValue digits : Int) else decimalValue digits

def text (written : Written) : List Char :=
  written.whole ++ (fractionText written.fraction ++ powerText written.power)

/-- The numeral has digits wherever these are needed, and nothing but digits there. -/
structure Proper (written : Written) : Prop where
  nonempty : written.whole ≠ []
  whole : Digits written.whole
  fraction : Digits written.fraction
  power : ∀ negative digits, written.power = some (negative, digits) →
    digits ≠ [] ∧ Digits digits

end Written

theorem span_digits {digits rest : List Char} (all : Digits digits)
    (stops : ∀ c ∈ rest.head?, ¬ Text.isDecimalDigit c) :
    (digits ++ rest).span Text.isDecimalDigit = (digits, rest) := by
  have test : ∀ c ∈ digits, Text.isDecimalDigit c :=
    fun c member => Text.digit_decimal (all c member)
  have none : rest.takeWhile Text.isDecimalDigit = [] ∧
      rest.dropWhile Text.isDecimalDigit = rest := by
    cases rest with
    | nil => exact ⟨rfl, rfl⟩
    | cons c rest =>
        have stop := stops c rfl
        exact ⟨List.takeWhile_cons_of_neg stop, List.dropWhile_cons_of_neg stop⟩
  rw [List.span_eq_takeWhile_dropWhile, List.takeWhile_append_of_pos test,
    List.dropWhile_append_of_pos test, none.1, none.2, List.append_nil]

theorem power_first (power : Option (Bool × List Char)) :
    ∀ c ∈ (Written.powerText power).head?, c = 'e' := by
  rcases power with _ | ⟨negative, digits⟩
  · rintro c ⟨⟩
  · rintro c ⟨⟩
    rfl

theorem letter_no_digit : ¬ Text.isDecimalDigit 'e' := by
  decide

theorem fractionDigits_text {fraction : List Char} (digits : Digits fraction)
    (power : Option (Bool × List Char)) :
    fractionDigits (Written.fractionText fraction ++ Written.powerText power) =
      (fraction, Written.powerText power) := by
  cases fraction with
  | nil =>
      rcases power with _ | ⟨negative, digits⟩ <;> rfl
  | cons c rest =>
      refine span_digits digits ?_
      intro first member
      rw [power_first power first member]
      exact letter_no_digit

theorem writtenExponent_text (power : Option (Bool × List Char)) :
    writtenExponent (Written.powerText power) = Written.powerValue power := by
  rcases power with _ | ⟨negative, digits⟩
  · rfl
  · cases negative <;> rfl

theorem decimal_text {written : Written} (proper : written.Proper) :
    Numeral.decimal written.text =
      ⟨decimalValue (written.whole ++ written.fraction),
        Written.powerValue written.power - written.fraction.length⟩ := by
  have split : written.text.span Text.isDecimalDigit =
      (written.whole,
        Written.fractionText written.fraction ++ Written.powerText written.power) := by
    refine span_digits proper.whole ?_
    obtain ⟨whole, fraction, power⟩ := written
    cases fraction with
    | nil =>
        intro c member
        rw [power_first power c member]
        exact letter_no_digit
    | cons =>
        rintro c ⟨⟩
        decide
  simp only [Numeral.decimal, split, fractionDigits_text proper.fraction, writtenExponent_text]

/-- Nothing in a decimal numeral marks a hexadecimal one. -/
theorem text_chars {written : Written} (proper : written.Proper) :
    ∀ c ∈ written.text, c.isDigit ∨ c ∈ ['.', 'e', '+', '-'] := by
  obtain ⟨whole, fraction, power⟩ := written
  intro c member
  rcases List.mem_append.mp member with member | member
  · exact .inl (proper.whole c member)
  rcases List.mem_append.mp member with member | member
  · cases fraction with
    | nil => cases member
    | cons first rest =>
        rcases List.mem_cons.mp member with rfl | member
        · exact .inr List.mem_cons_self
        · exact .inl (proper.fraction c member)
  · rcases power with _ | ⟨negative, digits⟩
    · cases member
    · rcases List.mem_cons.mp member with rfl | member
      · exact .inr (by decide)
      rcases List.mem_cons.mp member with rfl | member
      · cases negative <;> exact .inr (by decide)
      · exact .inl ((proper.power negative digits rfl).2 c member)

theorem text_mark {written : Written} (proper : written.Proper) :
    ∀ c ∈ written.text, c ≠ 'x' ∧ c ≠ 'X' := by
  intro c member
  rcases text_chars proper c member with digit | mark
  · refine ⟨?_, ?_⟩ <;> rintro rfl <;> cases digit
  · refine ⟨?_, ?_⟩ <;> rintro rfl <;> exact absurd mark (by decide)

/-- A decimal numeral is read to the magnitude nearest to it. -/
theorem read_text {written : Written} (proper : written.Proper) :
    Numeral.read? written.text = some (ofMagnitude
      (Decimal.toMagnitude ⟨decimalValue (written.whole ++ written.fraction),
        Written.powerValue written.power - written.fraction.length⟩)) := by
  have decimal : hexadecimalDigits? written.text = none := by
    have plain := text_mark proper
    unfold hexadecimalDigits?
    split
    · next mark digits same =>
        have other := plain mark (by simp [same])
        exact if_neg (not_or.mpr other)
    · rfl
  rw [Numeral.read?, decimal, decimal_text proper]

/-- A step is a whole number of units of this many decimal places. -/
def places : Nat := 1074

def unitsPerStep : Nat := 5 ^ places

theorem unitsPerStep_eq : unitsPerStep * stepsPerUnit = Nat.pow 10 places := by
  decide +kernel

/-- A numeral for a magnitude: its steps in units of the last place, or a number that is beyond all
finite ones. -/
def numeral (bits : Nat) : Written :=
  if bits < infinityBits then
    ⟨Nat.toDigits 10 (steps bits * unitsPerStep), [], some (true, ['1', '0', '7', '4'])⟩
  else ⟨['1'], [], some (false, ['9', '9', '9'])⟩

theorem numeral_proper (bits : Nat) : (numeral bits).Proper := by
  unfold numeral
  split
  · refine ⟨Nat.toDigits_ne_nil, toDigits_digits _, by rintro c ⟨⟩, ?_⟩
    rintro negative digits ⟨⟩
    exact ⟨List.cons_ne_nil _ _, by decide⟩
  · refine ⟨List.cons_ne_nil _ _, (by decide : Digits ['1']), by rintro c ⟨⟩, ?_⟩
    rintro negative digits ⟨⟩
    exact ⟨List.cons_ne_nil _ _, by decide⟩

/-- The steps of a magnitude, written out in units of a power of ten, are read to it. -/
theorem scaled_exact {bits units width : Nat} (finite : bits < infinityBits)
    (negative : 0 < width) (scale : units * stepsPerUnit = Nat.pow 10 width) :
    Decimal.toMagnitude ⟨steps bits * units, -width⟩ = bits := by
  have below : ¬ (0 : Int) ≤ -width := by omega
  apply Decimal.toMagnitude_exact finite
  simp only [Decimal.stepQuotient, if_neg below, Int.neg_neg, Int.toNat_natCast]
  rw [Nat.mul_assoc, scale]

theorem beyond_infinity : Decimal.toMagnitude ⟨1, 999⟩ = infinityBits := by
  have single : Decimal.digitCount 1 = 1 := by
    rw [Decimal.digitCount]
    rfl
  rw [Decimal.toMagnitude, single]
  rfl

theorem read_numeral {bits : Nat} (number : bits ≤ infinityBits) :
    Numeral.read? (numeral bits).text = some (ofMagnitude bits) := by
  rw [read_text (numeral_proper bits)]
  congr 2
  by_cases finite : bits < infinityBits
  · have power : Written.powerValue (some (true, ['1', '0', '7', '4'])) -
        (([] : List Char).length : Int) = -(places : Int) := by decide
    rw [numeral, if_pos finite, List.append_nil, decimalValue_toDigits, power]
    exact scaled_exact finite (by decide) unitsPerStep_eq
  · rw [numeral, if_neg finite, Nat.le_antisymm number (Nat.not_lt.mp finite)]
    exact beyond_infinity

theorem toMagnitude_le (decimal : Decimal) : decimal.toMagnitude ≤ infinityBits := by
  unfold Decimal.toMagnitude
  simp only
  split
  · exact Nat.zero_le _
  · split
    · exact Nat.le_refl _
    · exact nearest_le _ _

/-- Every numeral is read to a number, and that has no sign. -/
theorem read_number {text : List Char} {x : Float} (read : Numeral.read? text = some x) :
    magnitude x ≤ infinityBits ∧ isNegative x = false := by
  have number {bits : Nat} (bound : bits ≤ infinityBits) :
      magnitude (ofMagnitude bits) ≤ infinityBits ∧ isNegative (ofMagnitude bits) = false := by
    rw [magnitude_ofMagnitude bound]
    exact ⟨bound, positive_ofMagnitude bound⟩
  unfold Numeral.read? at read
  split at read
  · simp only at read
    split at read
    · cases read
      exact number (nearest_le _ _)
    · cases read
  · cases read
    exact number (toMagnitude_le _)

end Double

end LuaCore
