import LuaCore.Evaluation
import LuaCore.Proofs.Shortest

/-!
What table keys identify. Two values stand for one key just if they are equal as strings or as
numbers, or if one of them is the text of the other one, which is no whole number.
-/

namespace LuaCore

open Evaluation

/-! Equal numbers. -/

namespace Double

open Float.Model.UnpackedFloat

variable {x y : Float}

/-- A finite number without a fractional part. -/
def IsWhole (x : Float) : Prop :=
  isFinite x ∧ (stepsPerUnit : Int) ∣ count x

theorem whole_iff : IsWhole x ↔ ∃ n, toInt? x = some n := by
  constructor
  · rintro ⟨finite, n, units⟩
    exact ⟨n, toInt_iff.mpr ⟨finite, units.trans (Int.mul_comm _ _)⟩⟩
  · rintro ⟨n, whole⟩
    obtain ⟨finite, units⟩ := toInt_iff.mp whole
    exact ⟨finite, n, units.trans (Int.mul_comm _ _)⟩

theorem fraction_iff : ¬ IsWhole x ↔ toInt? x = none := by
  rw [whole_iff, ← Option.isSome_iff_exists, Bool.not_eq_true, Option.isSome_eq_false_iff,
    Option.isNone_iff_eq_none]

/-- Equal numbers are the same one, both zeros apart. -/
theorem beq_cases (equal : (x == y) = true) : x = y ∨ magnitude x = 0 ∧ magnitude y = 0 := by
  obtain ⟨_, _, same⟩ := beq_iff.mp equal
  have bits : magnitude x = 0 ∧ magnitude y = 0 ∨ x.toBits.toNat = y.toBits.toNat := by
    rw [bits_eq x, bits_eq y]
    unfold rank sign at same
    generalize isNegative x = negative, isNegative y = negative' at same ⊢
    cases negative <;> cases negative' <;>
      simp only [Bool.false_eq_true, if_false, if_true, Sign.apply] at same ⊢ <;> omega
  rcases bits with zero | bits
  · exact .inr zero
  · exact .inl (eq_of_bits bits)

theorem beq_self (number : magnitude x ≤ infinityBits) : (x == x) = true :=
  beq_iff.mpr ⟨number, number, rfl⟩

theorem toInt_zero (zero : magnitude x = 0) : toInt? x = some 0 := by
  refine toInt_iff.mpr ⟨?_, ?_⟩
  · rw [isFinite, zero]
    decide
  · rw [count, zero, Int.zero_mul]
    cases sign x <;> rfl

/-- Numbers with one exact value are equal. -/
theorem beq_whole {n : Int} (whole : toInt? x = some n) (whole' : toInt? y = some n) :
    (x == y) = true := by
  obtain ⟨finite, units⟩ := toInt_iff.mp whole
  obtain ⟨finite', units'⟩ := toInt_iff.mp whole'
  have least := steps_rank (sign x) (sign y) (magnitude x) (magnitude y)
  have most := steps_rank (sign y) (sign x) (magnitude y) (magnitude x)
  have same : count x = count y := units.trans units'.symm
  refine beq_iff.mpr ⟨Nat.le_of_lt (of_decide_eq_true finite),
    Nat.le_of_lt (of_decide_eq_true finite'), Int.le_antisymm ?_ ?_⟩
  · exact least.mp (Int.le_of_eq same)
  · exact most.mp (Int.le_of_eq same.symm)

end Double

namespace Value

/-- Values that stand for no key. -/
inductive Keyless : Value → Prop where
  | nil : Keyless .nil
  | boolean (value : Bool) : Keyless (.boolean value)
  | table (id : Nat) : Keyless (.table id)
  | function (id : Nat) : Keyless (.function id)

/-- Values that are not told apart as keys. -/
inductive SameKey : Value → Value → Prop where
  | equal {x y : Float} (equal : (x == y) = true) : SameKey (.number x) (.number y)
  | neither {x y : Float} (none : x.isNaN) (none' : y.isNaN) : SameKey (.number x) (.number y)
  | string (text : String) : SameKey (.string text) (.string text)
  | written {x : Float} (fraction : ¬ Double.IsWhole x) :
      SameKey (.number x) (.string (String.ofList (Double.exact x)))
  | reads {x : Float} (fraction : ¬ Double.IsWhole x) :
      SameKey (.string (String.ofList (Double.exact x))) (.number x)

theorem keyless_iff {value : Value} : value.Keyless ↔ value.toKey? = none := by
  constructor
  · rintro (_ | _ | _ | _) <;> rfl
  · intro none
    cases value with
    | nil => exact .nil
    | boolean value => exact .boolean value
    | table id => exact .table id
    | function id => exact .function id
    | number | string => cases none

theorem numberKey_none {x : Float} (none : x.isNaN) : numberKey x = .name "nan" := by
  have above := (Double.isNaN_iff x).mp none
  have fraction : ¬ Double.IsWhole x := by
    rintro ⟨finite, _⟩
    exact Nat.lt_asymm above (of_decide_eq_true finite)
  rw [numberKey, Double.fraction_iff.mp fraction, Double.exact_none above]

theorem numberKey_iff {x y : Float} :
    numberKey x = numberKey y ↔ SameKey (.number x) (.number y) := by
  constructor
  · intro same
    unfold numberKey at same
    cases whole : Double.toInt? x with
    | some n =>
        cases whole' : Double.toInt? y with
        | some m =>
            simp only [whole, whole', Key.integer.injEq] at same
            exact .equal (Double.beq_whole whole (same ▸ whole'))
        | none => simp [whole, whole'] at same
    | none =>
        cases whole' : Double.toInt? y with
        | some m => simp [whole, whole'] at same
        | none =>
            simp only [whole, whole', Key.name.injEq] at same
            have text := congrArg String.toList same
            rw [String.toList_ofList, String.toList_ofList] at text
            rcases Double.exact_injective text with rfl | ⟨none, none'⟩
            · by_cases number : Double.magnitude x ≤ Double.infinityBits
              · exact .equal (Double.beq_self number)
              · have none := (Double.isNaN_iff x).mpr (Nat.not_le.mp number)
                exact .neither none none
            · exact .neither ((Double.isNaN_iff x).mpr none) ((Double.isNaN_iff y).mpr none')
  · rintro (equal | ⟨none, none'⟩)
    · rcases Double.beq_cases equal with rfl | ⟨zero, zero'⟩
      · rfl
      · rw [numberKey, numberKey, Double.toInt_zero zero, Double.toInt_zero zero']
    · rw [numberKey_none none, numberKey_none none']

theorem numberKey_name {x : Float} {text : String} :
    numberKey x = .name text ↔ ¬ Double.IsWhole x ∧ String.ofList (Double.exact x) = text := by
  rw [Double.fraction_iff, numberKey]
  cases Double.toInt? x <;> simp

theorem toKey_iff {u v : Value} :
    (∃ key, u.toKey? = some key ∧ v.toKey? = some key) ↔ SameKey u v := by
  constructor
  · rintro ⟨key, stands, stands'⟩
    cases u with
    | number x =>
        obtain rfl := Option.some.inj stands
        cases v with
        | number y => exact numberKey_iff.mp (Option.some.inj stands').symm
        | string text =>
            obtain ⟨fraction, rfl⟩ := numberKey_name.mp (Option.some.inj stands').symm
            exact .written fraction
        | _ => cases stands'
    | string text =>
        obtain rfl := Option.some.inj stands
        cases v with
        | number y =>
            obtain ⟨fraction, rfl⟩ := numberKey_name.mp (Option.some.inj stands')
            exact .reads fraction
        | string text' =>
            cases stands'
            exact .string text
        | _ => cases stands'
    | _ => cases stands
  · intro same
    cases same with
    | equal equal => exact ⟨_, rfl, congrArg some (numberKey_iff.mpr (.equal equal)).symm⟩
    | neither none none' =>
        exact ⟨_, rfl, congrArg some (numberKey_iff.mpr (.neither none none')).symm⟩
    | string text => exact ⟨_, rfl, rfl⟩
    | written fraction => exact ⟨_, congrArg some (numberKey_name.mpr ⟨fraction, rfl⟩), rfl⟩
    | reads fraction => exact ⟨_, rfl, congrArg some (numberKey_name.mpr ⟨fraction, rfl⟩)⟩

end Value

/-- A value without a key is refused with the value itself. Any other one has a key, and it is the
key of another value just if this is not told apart from it. A whole number, however large it is,
shares its key with equal numbers only. -/
theorem keys_identify (u v : Value) :
    (∀ machine, (requireKey u machine = .failed (.misuse .index u none) machine ↔ u.Keyless) ∧
      (¬ u.Keyless → ∃ key, u.toKey? = some key ∧ requireKey u machine = .done key machine)) ∧
    ((∃ key, u.toKey? = some key ∧ v.toKey? = some key) ↔ u.SameKey v) ∧
    (∀ x, u = .number x → Double.IsWhole x → u.SameKey v → ∃ y, v = .number y ∧ (x == y) = true) := by
  refine ⟨fun machine => ?_, Value.toKey_iff, ?_⟩
  · rw [Value.keyless_iff]
    cases stands : u.toKey? with
    | none =>
        rw [requireKey, stands]
        exact ⟨⟨fun _ => rfl, fun _ => rfl⟩, fun some => absurd rfl some⟩
    | some key =>
        rw [requireKey, stands]
        refine ⟨⟨?_, ?_⟩, fun _ => ⟨key, rfl, rfl⟩⟩
        · rintro ⟨⟩
        · rintro ⟨⟩
  · rintro x rfl whole same
    cases same with
    | equal equal => exact ⟨_, rfl, equal⟩
    | neither none =>
        have above := (Double.isNaN_iff x).mp none
        exact absurd (of_decide_eq_true whole.1) (Nat.lt_asymm above)
    | written fraction => exact absurd whole fraction

end LuaCore
