import Mathlib.Data.Set.Card
import LuaCore.Proofs.Readback
import LuaCore.Proofs.Rerunning
import LuaCore.Proofs.Writing

/-!
Normal tables: none stores nil, and none has two entries with the same key. The keys stand for
values, or are positions that some constructor of a table counts up to. Programs keep tables normal
on every host whose natives do.
-/

namespace LuaCore

open Evaluation

/-! Whole numbers of doubles. They are all there up to 2^53, and beyond that only even ones. -/

namespace Double

theorem whole_natural {n : Nat} (small : n ≤ 2 ^ 53) : ∃ x, toInt? x = some (n : Int) := by
  obtain ⟨bits, finite, count⟩ := steps_natural small
  have number := Nat.le_of_lt finite
  have magnitude := magnitude_ofMagnitude number
  refine ⟨ofMagnitude bits, toInt_of_steps ?_ ?_ ?_⟩
  · exact decide_eq_true (magnitude.trans_lt finite)
  · rw [magnitude, count, Int.natAbs_natCast]
  · rw [positive_ofMagnitude number]
    exact (decide_eq_false (Int.not_lt.mpr (Int.natCast_nonneg n))).symm

theorem odd_small {x : Float} {n : Int} (whole : toInt? x = some n) (odd : n % 2 = 1) :
    n.natAbs < 2 ^ 53 := by
  obtain ⟨significand, doublings, canonical⟩ := canonical_exists (magnitude x)
  obtain ⟨reach, unit⟩ : ∃ reach, stepsPerUnit = 2 ^ reach := ⟨1074, by decide +kernel⟩
  have count := (toInt_exact whole).2
  rw [steps_canonical canonical, unit] at count
  rcases Nat.lt_or_ge reach doublings with many | few
  · obtain ⟨more, rfl⟩ := Nat.exists_eq_add_of_lt many
    rw [Nat.add_assoc, Nat.pow_add, Nat.mul_left_comm, Nat.mul_comm] at count
    have same := Nat.eq_of_mul_eq_mul_right (Nat.two_pow_pos reach) count
    rw [Nat.pow_succ, ← Nat.mul_assoc] at same
    omega
  · obtain ⟨more, rfl⟩ := Nat.exists_eq_add_of_le few
    rw [Nat.pow_add, Nat.mul_left_comm, Nat.mul_comm] at count
    have same := Nat.eq_of_mul_eq_mul_left (Nat.two_pow_pos doublings) count
    have least := Nat.le_mul_of_pos_right n.natAbs (Nat.two_pow_pos more)
    exact Nat.lt_of_le_of_lt (same ▸ least) canonical.short

end Double

/-! What is stored in tables. -/

/-- No entry is nil, no two have the same key, and every key stands for a value or for a place that
was counted up to. -/
structure Table.Normal (places : Nat → Prop) (table : Table) : Prop where
  nonnil : ∀ entry ∈ table.entries, entry.2 ≠ .nil
  distinct : table.keys.Nodup
  within : ∀ key ∈ table.keys, key.Within places

namespace Table

variable {places : Nat → Prop} {table : Table}

theorem normal_empty : Table.Normal places {} :=
  ⟨fun _ member => absurd member List.not_mem_nil, List.nodup_nil,
    fun _ member => absurd member List.not_mem_nil⟩

theorem set_normal {key : Key} (value : Value) (within : key.Within places)
    (normal : table.Normal places) : (table.set key value).Normal places := by
  refine ⟨?_, set_distinct normal.distinct key value, ?_⟩
  · intro entry member
    cases value with
    | nil => exact normal.nonnil entry (List.mem_filter.mp member).1
    | _ =>
        rcases Machine.mem_put member with same | old
        · rw [same]
          exact Value.noConfusion
        · exact normal.nonnil entry old
  · intro other member
    rw [keys_set_iff] at member
    by_cases asked : other = key
    · exact asked ▸ within
    · rw [if_neg asked] at member
      exact normal.within other member

/-- What is read under a key is nil just for keys that are not there. -/
theorem get_nil (normal : table.Normal places) (key : Key) :
    table.get key = .nil ↔ key ∉ table.keys := by
  constructor
  · intro none member
    exact normal.nonnil _ (mem_get member) none
  · intro absent
    rw [← contains_iff, contains, Bool.not_eq_true, Option.isSome_eq_false_iff,
      Option.isNone_iff_eq_none] at absent
    rw [get, absent]
    rfl

theorem size_normal (normal : table.Normal places) :
    table.size = {key | table.get key ≠ .nil}.ncard := by
  have same : {key | table.get key ≠ .nil} = {key | table.contains key} := by
    ext key
    simp [get_nil normal, contains_iff]
  rw [same, size_distinct normal.distinct]

end Table

/-- All tables are in order, and the bodies of functions do not count on further. -/
structure Machine.Normal (places : Nat → Prop) (machine : Machine) : Prop where
  tables : ∀ id, (machine.table id).Normal places
  bodies : ∀ id closure, machine.callable id = .closure closure → places (Block.width closure.body)

namespace Machine

variable {places : Nat → Prop} {machine : Machine}

theorem normal_newTable (normal : machine.Normal places) : machine.newTable.2.Normal places := by
  refine ⟨fun id => ?_, normal.bodies⟩
  rw [table_newTable]
  exact normal.tables id

theorem normal_setTable {key : Key} (id : Nat) (value : Value) (within : key.Within places)
    (normal : machine.Normal places) : (machine.setTable id key value).Normal places := by
  refine ⟨fun other => ?_, normal.bodies⟩
  rw [table_setTable]
  split
  · exact Table.set_normal value within (normal.tables other)
  · exact normal.tables other

theorem normal_newFunction {function : Callable} (normal : machine.Normal places)
    (body : ∀ closure, function = .closure closure → places (Block.width closure.body)) :
    (machine.newFunction function).2.Normal places := by
  refine ⟨normal.tables, fun id closure found => ?_⟩
  rw [callable_newFunction] at found
  split at found
  · exact body closure found
  · exact normal.bodies id closure found

theorem normal_newNative (name : String) (native : Native) (normal : machine.Normal places) :
    (machine.newFunction (.native name native)).2.Normal places :=
  normal_newFunction normal nofun

end Machine

-- A machine is alongside itself here, so that the two runs are one, and what it has to itself is
-- kept by every program that does not count on further.
def Bond.normal (places : Nat → Prop) : Bond where
  machines machine other := machine = other ∧ machine.Normal places
  failures := Eq
  bodies body other := body = other ∧ places (Block.width body)
  places := places
  failures_refl _ := rfl
  failures_leaving name same := congrArg (Failure.leaving name) same
  failures_misuse same := .inl same
  agrees := by
    rintro machine _ ⟨rfl, _⟩
    exact ⟨rfl, rfl, rfl, rfl, rfl⟩
  callable := by
    rintro machine _ id ⟨rfl, normal⟩
    cases found : machine.callable id with
    | closure closure => exact .closure ⟨rfl, normal.bodies id closure found⟩
    | native name native => exact .native name native
  writeGlobals := by
    rintro machine _ globals ⟨rfl, normal⟩
    exact ⟨rfl, normal.tables, normal.bodies⟩
  writeCells := by
    rintro machine _ cells ⟨rfl, normal⟩
    exact ⟨rfl, normal.tables, normal.bodies⟩
  newTable := by
    rintro machine _ ⟨rfl, normal⟩
    exact ⟨rfl, Machine.normal_newTable normal⟩
  setTable := by
    rintro machine _ key id value ⟨rfl, normal⟩ within
    exact ⟨rfl, Machine.normal_setTable id value within normal⟩
  newFunction := by
    rintro machine _ function function' ⟨rfl, normal⟩ alike
    cases alike with
    | closure same =>
        obtain ⟨rfl, fits⟩ := same
        refine ⟨rfl, rfl, Machine.normal_newFunction normal ?_⟩
        rintro _ ⟨⟩
        exact fits
    | native name native => exact ⟨rfl, rfl, Machine.normal_newNative name native normal⟩
  atDepth := by
    rintro machine _ depth ⟨rfl, normal⟩
    exact ⟨rfl, normal.tables, normal.bodies⟩
  address := by
    rintro machine _ addressed ⟨rfl, normal⟩
    exact ⟨rfl, normal.tables, normal.bodies⟩
  emit := by
    rintro machine _ event ⟨rfl, normal⟩ _
    exact ⟨rfl, normal.tables, normal.bodies⟩

theorem normal_uniform {places : Nat → Prop}
    (closed : ∀ place width, place ≤ width → places width → places place) :
    (Bond.normal places).Uniform where
  bodies := Iff.rfl
  places less counted := closed _ _ less counted
  begin := by
    rintro machine _ summary ⟨rfl, normal⟩
    refine ⟨rfl, ?_⟩
    unfold Machine.begin
    split <;> exact ⟨normal.tables, normal.bodies⟩

/-- A computation is alongside itself just where it keeps tables normal. -/
theorem normal_mirrors {places : Nat → Prop} {α : Type} {body : Eval α} :
    (Bond.normal places).Mirrors body body ↔ ∀ machine next, machine.Normal places →
      (body machine).machine? = some next → next.Normal places := by
  constructor
  · intro mirrors machine next normal ended
    have ends := mirrors machine machine ⟨rfl, normal⟩
    cases ran : body machine with
    | done value after =>
        rw [ran] at ends ended
        cases ended
        cases ends with
        | done _ machines => exact machines.2
    | failed failure after =>
        rw [ran] at ends ended
        cases ended
        cases ends with
        | failed _ machines => exact machines.2
    | exhausted =>
        rw [ran] at ended
        cases ended
  · rintro keeps machine _ ⟨rfl, normal⟩
    have after := keeps machine
    cases ran : body machine with
    | done value next =>
        rw [ran] at after
        exact .done value ⟨rfl, after next normal rfl⟩
    | failed failure next =>
        rw [ran] at after
        exact .failed rfl ⟨rfl, after next normal rfl⟩
    | exhausted => exact .exhausted

end LuaCore
