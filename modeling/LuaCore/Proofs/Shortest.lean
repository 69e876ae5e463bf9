import LuaCore.Proofs.Denoting
import LuaCore.Proofs.Exactness

/-!
The form that reads back. The shortest digits of a magnitude are read to it again, so the text of a
finite number is read to that very number, and no two numbers have one text.
-/

namespace LuaCore

/-! The shortest digits. -/

namespace Decimal

/-- A magnitude has so few digits in front of the point that all of its digits are behind the last
place of so many. -/
theorem leading_few {bits : Nat} (finite : bits < Double.infinityBits) (positive : 0 < bits) :
    ∃ places doublings significand : Nat, leadingExponent bits - 1100 = -(places : Int) ∧
      0 < places ∧ Double.steps bits = significand * 2 ^ doublings ∧ 1074 ≤ doublings + places := by
  obtain ⟨significand, doublings, canonical⟩ := Double.canonical_exists bits
  obtain ⟨digits, places, far, leading, enough⟩ := Double.leading_bound positive
  have worth := Double.steps_canonical canonical
  have few := (Double.canonical_finite canonical).mp finite
  obtain ⟨bias, reach, unit⟩ : ∃ bias, bias = 1074 ∧ Double.stepsPerUnit = 2 ^ bias :=
    ⟨1074, rfl, by decide +kernel⟩
  have bound : digits ≤ places ∨ 3 * (digits - places) + bias < 53 + doublings := by
    by_cases small : digits ≤ places
    · exact .inl small
    · right
      obtain ⟨more, rfl⟩ := Nat.exists_eq_add_of_le (Nat.le_of_not_le small)
      rw [Nat.pow_eq, Nat.pow_eq, Nat.pow_add, Nat.mul_assoc, Nat.mul_comm] at enough
      have enough := Nat.le_of_mul_le_mul_right enough (Nat.pow_pos (by decide))
      rw [Nat.add_sub_cancel_left, ← Nat.pow_lt_pow_iff_right (by decide : 1 < 2)]
      calc 2 ^ (3 * more + bias) = 8 ^ more * 2 ^ bias := by rw [Nat.pow_add, Nat.pow_mul]
        _ ≤ 10 ^ more * Double.stepsPerUnit := by
            rw [unit]
            exact Nat.mul_le_mul_right _ (Nat.pow_le_pow_left (by decide) more)
        _ ≤ Double.steps bits := enough
        _ = significand * 2 ^ doublings := worth
        _ < 2 ^ 53 * 2 ^ doublings :=
            Nat.mul_lt_mul_of_pos_right canonical.short (Nat.two_pow_pos _)
        _ = 2 ^ (53 + doublings) := (Nat.pow_add ..).symm
  rw [leading]
  refine ⟨1100 + places - digits, doublings, significand, ?_, ?_, worth, ?_⟩ <;>
    (clear leading enough unit worth; omega)

open Double in
/-- So many digits are all of them. -/
theorem significant_exact {bits : Nat} (positive : 0 < bits) (finite : bits < infinityBits) :
    (significant 1101 bits).toMagnitude = bits := by
  obtain ⟨places, doublings, significand, exponent, some, worth, enough⟩ :=
    leading_few finite positive
  have last : leadingExponent bits - (1101 : Nat) + 1 = -(places : Int) := by omega
  have below : ¬ (0 : Int) ≤ -(places : Int) := by omega
  obtain ⟨bias, reach, unit⟩ : ∃ bias, bias = 1074 ∧ stepsPerUnit = 2 ^ bias :=
    ⟨1074, rfl, by decide +kernel⟩
  have divides : stepsPerUnit ∣ steps bits * 10 ^ places := by
    have ten : (10 : Nat) = 2 * 5 := rfl
    rw [worth, unit, ten, Nat.mul_pow, Nat.mul_assoc, ← Nat.mul_assoc (2 ^ doublings), ← Nat.pow_add]
    exact (Nat.pow_dvd_pow 2 (reach ▸ enough)).trans ((Nat.dvd_mul_right _ _).mul_left _)
  obtain ⟨coefficient, whole⟩ := divides
  have quotient : unitQuotient bits (-places) = (coefficient * stepsPerUnit, stepsPerUnit) := by
    simp only [unitQuotient, if_neg below, Int.neg_neg, Int.toNat_natCast, Nat.pow_eq, whole,
      Nat.mul_comm]
  have rounded : significant 1101 bits = ⟨coefficient, -places⟩ := by
    simp only [significant, last, quotient, roundDiv_exact _ unit_positive]
  rw [rounded]
  apply toMagnitude_exact finite
  simp only [stepQuotient, if_neg below, Int.neg_neg, Int.toNat_natCast, Nat.pow_eq, whole,
    Nat.mul_comm]

theorem readsBack_exact {bits count : Nat} {decimal : Decimal}
    (reads : readsBack? bits count = some decimal) : decimal.toMagnitude = bits := by
  unfold readsBack? at reads
  simpa using List.find?_some reads

/-- The shortest digits of a magnitude are read to it. -/
theorem shortest_exact {bits : Nat} (positive : 0 < bits) (finite : bits < Double.infinityBits) :
    (shortest bits).toMagnitude = bits := by
  unfold shortest
  cases found : (List.range' 1 1100).findSome? (readsBack? bits) with
  | some decimal =>
      obtain ⟨count, _, reads⟩ := List.exists_of_findSome?_eq_some found
      exact readsBack_exact reads
  | none => exact significant_exact positive finite

end Decimal

/-! The text. -/

namespace Double

open Float.Model.UnpackedFloat

theorem exact_shows {x : Float} (finite : isFinite x) : ∃ text decimal, Shows text decimal ∧
    decimal.toMagnitude = magnitude x ∧ exact x = if isNegative x then '-' :: text else text := by
  have bound : magnitude x < infinityBits := of_decide_eq_true finite
  have chosen (nonzero : magnitude x ≠ 0) :=
    Decimal.shortest_exact (Nat.pos_of_ne_zero nonzero) bound
  obtain ⟨text, shown, same⟩ := format_shows ⟨16, true⟩ Decimal.shortest finite
    fun nonzero => Decimal.coefficient_positive (by rwa [chosen nonzero])
  refine ⟨text, _, shown, ?_, same⟩
  split
  · next zero =>
      rw [zero]
      rfl
  · next nonzero => exact chosen nonzero

/-- The text of a finite number is read to it. -/
theorem exact_reads {x : Float} (finite : isFinite x) :
    Numeral.signed? (exact x) = some x := by
  have bound : magnitude x < infinityBits := of_decide_eq_true finite
  obtain ⟨text, decimal, shown, worth, same⟩ := exact_shows finite
  have read := shows_read shown
  obtain ⟨written, proper, rfl, _⟩ := shown
  rw [worth] at read
  have whole := signed (Nat.le_of_lt bound)
  rw [same]
  by_cases negative : isNegative x
  · rw [if_pos negative] at whole ⊢
    rw [Numeral.signed?, read, Option.map_some, ← whole]
  · rw [if_neg negative] at whole ⊢
    rw [signed_unsigned proper, read, ← whole]

/-- Reads the text of any number, and what is no number to none. -/
def Numeral.shown? (text : List Char) : Option Float :=
  if text = ['n', 'a', 'n'] then none
  else if text = ['i', 'n', 'f'] then some (ofMagnitude infinityBits)
  else if text = ['-', 'i', 'n', 'f'] then some (-ofMagnitude infinityBits)
  else Numeral.signed? text

/-- The texts of finite numbers have no letter of the others. -/
theorem exact_finite {x : Float} (finite : isFinite x) : 'n' ∉ exact x := by
  obtain ⟨_, _, ⟨written, proper, rfl, _⟩, _, same⟩ := exact_shows finite
  have absent : 'n' ∉ written.text := by
    intro member
    rcases text_chars proper 'n' member with digit | mark
    · cases digit
    · exact absurd mark (by decide)
  rw [same]
  split
  · intro member
    rcases List.mem_cons.mp member with sign | member
    · exact absurd sign (by decide)
    · exact absent member
  · exact absent

theorem exact_none {x : Float} (none : infinityBits < magnitude x) :
    exact x = ['n', 'a', 'n'] := by
  simp only [exact, format]
  rw [if_pos none]

theorem exact_shown (x : Float) :
    Numeral.shown? (exact x) = if infinityBits < magnitude x then none else some x := by
  rcases Nat.lt_trichotomy (magnitude x) infinityBits with below | all | above
  · have finite : isFinite x := decide_eq_true below
    have absent := exact_finite finite
    have other {text : List Char} (letter : 'n' ∈ text) : exact x ≠ text := by
      rintro rfl
      exact absent letter
    rw [Numeral.shown?, if_neg (other (by decide)), if_neg (other (by decide)),
      if_neg (other (by decide)), if_neg (Nat.not_lt.mpr (Nat.le_of_lt below)), exact_reads finite]
  · have infinite : exact x = if isNegative x then ['-', 'i', 'n', 'f'] else ['i', 'n', 'f'] := by
      simp only [exact, format, all]
      rw [if_neg (Nat.lt_irrefl _)]
      rfl
    have whole := signed (Nat.le_of_eq all)
    rw [all] at whole ⊢
    rw [infinite, if_neg (Nat.lt_irrefl _)]
    by_cases negative : isNegative x
    · rw [if_pos negative] at whole ⊢
      exact congrArg some whole.symm
    · rw [if_neg negative] at whole ⊢
      exact congrArg some whole.symm
  · rw [exact_none above, if_pos above]
    rfl

/-- The text of a number tells it, up to what is no number. -/
theorem exact_injective {x y : Float} (same : exact x = exact y) :
    x = y ∨ infinityBits < magnitude x ∧ infinityBits < magnitude y := by
  have read := congrArg Numeral.shown? same
  rw [exact_shown, exact_shown] at read
  split at read <;> split at read
  · next none none' => exact .inr ⟨none, none'⟩
  · cases read
  · cases read
  · exact .inl (Option.some.inj read)

end Double

end LuaCore
