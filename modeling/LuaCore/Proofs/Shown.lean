import Mathlib.Data.List.TakeWhile
import LuaCore.Double.Text
import LuaCore.Proofs.Numeral

/-!
What finite numbers look like: the text of one is a decimal numeral, with a minus sign in front of
it if the number has one.
-/

namespace LuaCore.Double

/-- The text of a numeral that is worth a decimal. -/
def Shows (text : List Char) (decimal : Decimal) : Prop :=
  ∃ written : Written, written.Proper ∧ written.text = text ∧
    Decimal.toMagnitude ⟨decimalValue (written.whole ++ written.fraction),
      Written.powerValue written.power - written.fraction.length⟩ = decimal.toMagnitude

theorem shows_read {text : List Char} {decimal : Decimal} (shows' : Shows text decimal) :
    Numeral.read? text = some (ofMagnitude decimal.toMagnitude) := by
  obtain ⟨written, proper, rfl, worth⟩ := shows'
  rw [read_text proper, worth]

theorem shows_shift {text : List Char} {coefficient shift : Nat} {exponent : Int} :
    Shows text ⟨coefficient * 10 ^ shift, exponent⟩ ↔
      Shows text ⟨coefficient, exponent + shift⟩ := by
  unfold Shows
  rw [Decimal.toMagnitude_shift]

theorem zeros_digits (count : Nat) : Digits (List.replicate count '0') := by
  intro c member
  rw [List.eq_of_mem_replicate member]
  decide

theorem decimalValue_zeros (count : Nat) : decimalValue (List.replicate count '0') = 0 := by
  induction count with
  | zero => rfl
  | succ count ih => exact ih

theorem decimalValue_padded (digits : List Char) (count : Nat) :
    decimalValue (digits ++ List.replicate count '0') = decimalValue digits * 10 ^ count := by
  rw [decimalValue_append, decimalValue_zeros, List.length_replicate, Nat.add_zero]

theorem decimalValue_leading (count : Nat) (digits : List Char) :
    decimalValue (List.replicate count '0' ++ digits) = decimalValue digits := by
  rw [decimalValue_append, decimalValue_zeros, Nat.zero_mul, Nat.zero_add]

theorem whole_proper {whole : List Char} (nonempty : whole ≠ []) (digits : Digits whole) :
    Written.Proper ⟨whole, [], none⟩ :=
  ⟨nonempty, digits, by rintro c ⟨⟩, by rintro negative digits ⟨⟩⟩

theorem whole_text (whole : List Char) : Written.text ⟨whole, [], none⟩ = whole :=
  List.append_nil whole

theorem whole_shows {whole : List Char} (nonempty : whole ≠ []) (digits : Digits whole) :
    Shows whole ⟨decimalValue whole, 0⟩ := by
  refine ⟨_, whole_proper nonempty digits, whole_text whole, ?_⟩
  rw [List.append_nil]
  rfl

theorem point_shows {whole fraction : List Char} (nonempty : whole ≠ []) (digits : Digits whole)
    (some : fraction ≠ []) (digits' : Digits fraction) :
    Shows (whole ++ '.' :: fraction) ⟨decimalValue (whole ++ fraction), -fraction.length⟩ := by
  refine ⟨⟨whole, fraction, none⟩, ⟨nonempty, digits, digits', by rintro negative digits ⟨⟩⟩, ?_, ?_⟩
  · cases fraction with
    | nil => exact absurd rfl some
    | cons first rest => simp [Written.text, Written.fractionText, Written.powerText]
  · simp [Written.powerValue]

/-- No point is needed behind the digits of a whole number, and none that has a zero behind it
makes a difference. -/
theorem padded_shows {digits : List Char} (nonempty : digits ≠ []) (all : Digits digits)
    (keepsPoint : Bool) (count : Nat) :
    Shows (if keepsPoint then digits ++ List.replicate count '0' ++ ['.', '0']
      else digits ++ List.replicate count '0') ⟨decimalValue digits, count⟩ := by
  have some : digits ++ List.replicate count '0' ≠ [] :=
    List.append_ne_nil_of_left_ne_nil nonempty _
  have whole : Digits (digits ++ List.replicate count '0') := digits_append all (zeros_digits count)
  split
  · have shown := point_shows some whole (List.cons_ne_nil '0' []) (by decide)
    have behind : digits ++ List.replicate count '0' ++ ['0'] =
        digits ++ List.replicate (count + 1) '0' := by
      rw [List.append_assoc, ← List.replicate_succ']
    rw [behind, decimalValue_padded] at shown
    convert shows_shift.mp shown using 2
    simp
  · have shown := whole_shows some whole
    rw [decimalValue_padded] at shown
    simpa using shows_shift.mp shown

theorem positional_shows {digits : List Char} (nonempty : digits ≠ []) (all : Digits digits)
    (keepsPoint : Bool) (leading : Int) :
    Shows (positional keepsPoint digits leading)
      ⟨decimalValue digits, leading + 1 - digits.length⟩ := by
  unfold positional
  by_cases small : leading < 0
  · rw [if_pos small]
    have fraction : Digits (List.replicate (-leading - 1).toNat '0' ++ digits) :=
      digits_append (zeros_digits _) all
    have shown := point_shows (List.cons_ne_nil '0' []) (by decide)
      (List.append_ne_nil_of_right_ne_nil _ nonempty) fraction
    have value := decimalValue_leading ((-leading - 1).toNat + 1) digits
    rw [List.replicate_succ] at value
    have exponent : leading + 1 - digits.length =
        -((List.replicate (-leading - 1).toNat '0' ++ digits).length : Int) := by
      rw [List.length_append, List.length_replicate]
      omega
    rw [← value, exponent]
    exact shown
  · rw [if_neg small]
    simp only
    split
    · next none =>
        have short : digits.length ≤ leading.toNat + 1 := List.drop_eq_nil_iff.mp none
        rw [List.take_of_length_le short]
        convert padded_shows nonempty all keepsPoint (leading.toNat + 1 - digits.length) using 2
        omega
    · next fraction more =>
        have long : leading.toNat + 1 < digits.length := by
          by_contra short
          exact more (List.drop_eq_nil_iff.mpr (Nat.not_lt.mp short))
        have padding : leading.toNat + 1 - digits.length = 0 := by omega
        have front : digits.take (leading.toNat + 1) ≠ [] := by simpa using nonempty
        have shown := point_shows front (fun c member => all c (List.mem_of_mem_take member)) more
          (fun c member => all c (List.mem_of_mem_drop member))
        rw [List.take_append_drop] at shown
        rw [padding, List.replicate_zero, List.append_nil]
        convert shown using 2
        rw [List.length_drop]
        omega

theorem scientific_shows {digits : List Char} (nonempty : digits ≠ []) (all : Digits digits)
    (leading : Int) :
    Shows (scientific digits leading) ⟨decimalValue digits, leading + 1 - digits.length⟩ := by
  have exponent : Digits (List.replicate (2 - (Nat.toDigits 10 leading.natAbs).length) '0' ++
      Nat.toDigits 10 leading.natAbs) :=
    digits_append (zeros_digits _) (toDigits_digits _)
  have some : List.replicate (2 - (Nat.toDigits 10 leading.natAbs).length) '0' ++
      Nat.toDigits 10 leading.natAbs ≠ [] :=
    List.append_ne_nil_of_right_ne_nil _ Nat.toDigits_ne_nil
  have power : decimalValue (List.replicate (2 - (Nat.toDigits 10 leading.natAbs).length) '0' ++
      Nat.toDigits 10 leading.natAbs) = leading.natAbs := by
    rw [decimalValue_leading, decimalValue_toDigits]
  simp only [scientific]
  generalize List.replicate (2 - (Nat.toDigits 10 leading.natAbs).length) '0' ++
    Nat.toDigits 10 leading.natAbs = padded at exponent some power
  have sign : (if leading < 0 then '-' else '+') = if decide (leading < 0) then '-' else '+' := by
    simp
  have worth : Written.powerValue (Option.some (decide (leading < 0), padded)) = leading := by
    simp only [Written.powerValue, power, decide_eq_true_eq]
    omega
  cases digits with
  | nil => exact absurd rfl nonempty
  | cons first more =>
      obtain ⟨isDigit, digits⟩ := List.forall_mem_cons.mp all
      have whole : Digits [first] := List.forall_mem_singleton.mpr isDigit
      refine ⟨⟨[first], more, (decide (leading < 0), padded)⟩,
        ⟨List.cons_ne_nil _ _, whole, digits, ?_⟩, ?_, ?_⟩
      · rintro negative digits ⟨⟩
        exact ⟨some, exponent⟩
      · rw [sign]
        cases more <;> rfl
      · rw [worth, List.length_cons]
        congr 2
        push_cast
        omega

theorem dropTrailingZeros_digits {digits : List Char} (all : Digits digits) :
    Digits (dropTrailingZeros digits) := by
  intro c member
  have kept := (List.dropWhile_suffix _).subset (List.mem_reverse.mp member)
  exact all c (List.mem_reverse.mp kept)

theorem dropTrailingZeros_nonempty {digits : List Char} {c : Char} (member : c ∈ digits)
    (nonzero : c ≠ '0') : dropTrailingZeros digits ≠ [] := by
  intro nothing
  have zeros := List.dropWhile_eq_nil_iff.mp (List.reverse_eq_nil_iff.mp nothing)
  exact nonzero (beq_iff_eq.mp (zeros c (List.mem_reverse.mpr member)))

/-- The digits without the zeros behind them. -/
theorem dropTrailingZeros_padded (digits : List Char) :
    ∃ count, digits = dropTrailingZeros digits ++ List.replicate count '0' := by
  refine ⟨(digits.reverse.takeWhile (· == '0')).length, ?_⟩
  have zeros : ∀ c ∈ (digits.reverse.takeWhile (· == '0')).reverse, c = '0' := by
    intro c member
    have zero := List.mem_takeWhile_imp (List.mem_reverse.mp member)
    exact beq_iff_eq.mp zero
  have split := congrArg List.reverse
    (List.takeWhile_append_dropWhile (p := (· == '0')) (l := digits.reverse))
  rw [List.reverse_append, List.reverse_reverse] at split
  rw [dropTrailingZeros, ← List.length_reverse, ← List.eq_replicate_of_mem zeros, split]

/-- A positive number has a digit that is not zero. -/
theorem toDigits_nonzero {n : Nat} (positive : 0 < n) : ∃ c ∈ Nat.toDigits 10 n, c ≠ '0' := by
  by_contra none
  simp only [not_exists, not_and, not_not] at none
  have zeros := List.eq_replicate_of_mem none
  have value := decimalValue_toDigits n
  rw [zeros, decimalValue_zeros] at value
  omega

theorem roundDiv_positive {numerator denominator : Nat} (positive : 0 < denominator)
    (enough : denominator ≤ numerator) : 0 < roundDiv numerator denominator := by
  have low := Nat.div_pos enough positive
  unfold roundDiv
  simp only
  split <;> omega

-- The number of places is bound by a quantifier, so that the power of ten is not computed.
theorem unit_lt : ∃ places, places = 324 ∧ stepsPerUnit < Nat.pow 10 places :=
  ⟨324, rfl, by decide +kernel⟩

theorem digitCount_quotient {count far units : Nat} (positive : 0 < units) (below : units < far)
    (some : 0 < count) :
    ∃ digits, Decimal.digitCount (count * far / units) = digits + 1 ∧
      Nat.pow 10 digits * units ≤ count * far := by
  have quotient : 0 < count * far / units :=
    Nat.div_pos (Nat.le_trans (Nat.le_of_lt below) (Nat.le_mul_of_pos_left far some)) positive
  have nonzero : Decimal.digitCount (count * far / units) ≠ 0 := by
    rw [Decimal.digitCount]
    split <;> omega
  obtain ⟨digits, same⟩ := Nat.exists_eq_succ_of_ne_zero nonzero
  have low := Decimal.digitCount_le quotient
  rw [same] at low
  exact ⟨digits, same, (Nat.le_div_iff_mul_le positive).mp low⟩

/-- A positive magnitude has as many digits as its leading one tells, counted up to a place far
behind the point. -/
theorem leading_bound {bits : Nat} (positive : 0 < bits) :
    ∃ digits places : Nat, places = 324 ∧ Decimal.leadingExponent bits = digits - places ∧
      Nat.pow 10 digits * stepsPerUnit ≤ steps bits * Nat.pow 10 places := by
  have some : 0 < steps bits := by
    apply Nat.pos_of_ne_zero
    intro zero
    exact absurd (steps_zero zero) (Nat.ne_of_gt positive)
  obtain ⟨places, far, below⟩ := unit_lt
  obtain ⟨digits, same, low⟩ := digitCount_quotient (by decide +kernel) below some
  have leading : Decimal.leadingExponent bits =
      Decimal.digitCount (steps bits * Nat.pow 10 places / stepsPerUnit) - 325 := by
    rw [far, Decimal.leadingExponent]
  exact ⟨digits, places, far, by omega, low⟩

theorem significant_positive {bits : Nat} (positive : 0 < bits) :
    0 < (Decimal.significant 14 bits).coefficient := by
  obtain ⟨digits, places, far, leading, enough⟩ := leading_bound positive
  have unit : 0 < stepsPerUnit := by decide +kernel
  change 0 < roundDiv (Decimal.unitQuotient bits (Decimal.leadingExponent bits - 14 + 1)).1
    (Decimal.unitQuotient bits (Decimal.leadingExponent bits - 14 + 1)).2
  rw [leading]
  unfold Decimal.unitQuotient
  generalize stepsPerUnit = units at enough unit
  simp only [Nat.pow_eq] at enough ⊢
  by_cases high : 0 ≤ (digits : Int) - places - 14 + 1
  · rw [if_pos high]
    have split : digits = ((digits : Int) - places - 14 + 1).toNat + 13 + places := by omega
    generalize ((digits : Int) - places - 14 + 1).toNat = exponent at split
    rw [split, Nat.pow_add, Nat.mul_right_comm] at enough
    have enough := Nat.le_of_mul_le_mul_right enough (Nat.pow_pos (by decide))
    apply roundDiv_positive (Nat.mul_pos unit (Nat.pow_pos (by decide)))
    calc units * 10 ^ exponent = 10 ^ exponent * units := Nat.mul_comm ..
      _ ≤ 10 ^ (exponent + 13) * units :=
          Nat.mul_le_mul_right _ (Nat.pow_le_pow_right (by decide) (Nat.le_add_right _ _))
      _ ≤ steps bits := enough
  · rw [if_neg high]
    have split : digits + (-((digits : Int) - places - 14 + 1)).toNat = 13 + places := by omega
    generalize (-((digits : Int) - places - 14 + 1)).toNat = exponent at split
    apply roundDiv_positive unit
    have scaled : 10 ^ 13 * units * 10 ^ places ≤ steps bits * 10 ^ exponent * 10 ^ places := by
      calc 10 ^ 13 * units * 10 ^ places = 10 ^ (13 + places) * units := by
            rw [Nat.pow_add, Nat.mul_right_comm]
        _ = 10 ^ digits * units * 10 ^ exponent := by
            rw [← split, Nat.pow_add, Nat.mul_right_comm]
        _ ≤ steps bits * 10 ^ places * 10 ^ exponent := Nat.mul_le_mul_right _ enough
        _ = steps bits * 10 ^ exponent * 10 ^ places := Nat.mul_right_comm ..
    have enough := Nat.le_of_mul_le_mul_right scaled (Nat.pow_pos (by decide))
    exact Nat.le_trans (Nat.le_mul_of_pos_left units (by decide)) enough

/-- However the digits are laid out, they are worth the decimal. -/
theorem layout_shows (style : Style) {decimal : Decimal} (positive : 0 < decimal.coefficient) :
    Shows (layout style decimal) decimal := by
  obtain ⟨coefficient, exponent⟩ := decimal
  obtain ⟨count, padded⟩ := dropTrailingZeros_padded (Nat.toDigits 10 coefficient)
  have digits := dropTrailingZeros_digits (toDigits_digits coefficient)
  obtain ⟨c, member, nonzero⟩ := toDigits_nonzero positive
  have some := dropTrailingZeros_nonempty member nonzero
  have value := congrArg decimalValue padded
  have length := congrArg List.length padded
  rw [decimalValue_toDigits, decimalValue_padded] at value
  rw [List.length_append, List.length_replicate] at length
  have leading : exponent + (Nat.toDigits 10 coefficient).length - 1 + 1 -
      (dropTrailingZeros (Nat.toDigits 10 coefficient)).length = exponent + count := by omega
  simp only [layout]
  rw [value, shows_shift, ← leading, ← value]
  split
  · exact positional_shows some digits _ _
  · exact scientific_shows some digits _

/-- The text of a finite number, with the digits that are chosen for it. -/
theorem format_shows (style : Style) (decimal : Nat → Decimal) {x : Float} (finite : isFinite x)
    (positive : magnitude x ≠ 0 → 0 < (decimal (magnitude x)).coefficient) :
    ∃ text, Shows text (if magnitude x = 0 then ⟨0, 0⟩ else decimal (magnitude x)) ∧
      format style decimal x = if isNegative x then '-' :: text else text := by
  have bound : magnitude x < infinityBits := of_decide_eq_true finite
  simp only [format]
  rw [if_neg (Nat.not_lt.mpr (Nat.le_of_lt bound)), if_neg (Nat.ne_of_lt bound)]
  refine ⟨_, ?_, rfl⟩
  by_cases zero : magnitude x = 0
  · rw [if_pos zero, if_pos zero]
    exact positional_shows (List.cons_ne_nil '0' []) (by decide) style.keepsPoint 0
  · rw [if_neg zero, if_neg zero]
    exact layout_shows style (positive zero)

theorem plain_numeral {x : Float} (finite : isFinite x) :
    ∃ written : Written, written.Proper ∧
      plain x = if isNegative x then '-' :: written.text else written.text := by
  obtain ⟨_, ⟨written, proper, rfl, _⟩, shown⟩ := format_shows ⟨14, false⟩ _ finite
    fun nonzero => significant_positive (Nat.pos_of_ne_zero nonzero)
  exact ⟨written, proper, shown⟩

end LuaCore.Double
