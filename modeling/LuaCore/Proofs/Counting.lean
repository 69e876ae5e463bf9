import LuaCore.Proofs.Adding
import LuaCore.Proofs.Desugaring
import LuaCore.Proofs.Looping

/-!
Counting over whole numbers. A loop is over with the first number that is beyond its limit, if no
block of it has a result. Over whole numbers that are not too large the numbers are those that the
clauses tell: no sum is rounded on the way, not even the one that is beyond the limit.
-/

namespace LuaCore

open Evaluation Activity

/-! How a loop ends. -/

namespace Loop

theorem number_bind {fuel : Nat} {scope : Scope} {machine after : Machine} {expression : Expression}
    {x : Float} {β : Type} (place : Misuse) (rest : Float → Eval β)
    (gives : Gives fuel scope machine expression (.number x) after) :
    Eval.bind (giving fuel scope expression)
      (fun value => Eval.bind (requireNumber place value) rest) machine = rest x after :=
  bind_given gives

theorem behind_value (scope : Scope) (turning : Eval Flow) (machine : Machine) :
    (Eval.bind turning (fun flow => match flow with
      | .next _ => Eval.pure (.next scope)
      | .result value => Eval.pure (.result value)) machine).value? =
      (turning machine).value?.map (Flow.behind scope) := by
  unfold Eval.bind
  cases turning machine with
  | done flow after => cases flow <;> rfl
  | failed | exhausted => rfl

theorem loop_flow (loop : Loop) : loop.activity.flow? =
    (loop.rest 0 loop.fuel loop.after loop.scope).flow?.map (Flow.behind loop.scope) := by
  obtain ⟨fuel, machine, scope, outer, name, start, limit, step, body, first, last, width, after,
    counts⟩ := loop
  simp only [activity, rest, counter, flow?, execute]
  refine Eq.trans ?_ (behind_value _ _ _)
  cases counts with
  | byOne gives gives' =>
      refine congrArg Outcome.value? ((number_bind _ _ gives).trans ?_)
      exact (number_bind _ _ gives').trans (bind_given rfl)
  | byStep gives gives' gives'' =>
      refine congrArg Outcome.value? ((number_bind _ _ gives).trans ?_)
      exact (number_bind _ _ gives').trans (number_bind _ _ gives'')

section

variable {loop : Loop} {round bound count : Nat} {machine : Machine} {inside : Scope}
  {rounds turn : Activity}

theorem rest_next {later : Scope} {after : Machine} (more : loop.counter round ≤ loop.last)
    (executed : let put := inside.put machine.cells loop.name (.number (loop.counter round))
      executeBlock (apply loop.fuel) loop.fuel put.1 loop.body { machine with cells := put.2 } =
        .done (.next later) after) :
    (loop.rest round (bound + 1) machine inside).flow? =
      (loop.rest (round + 1) bound after later).flow? := by
  simp only [rest, flow?, counter]
  congr 1
  rw [Evaluation.rounds, if_pos more]
  exact bind_given executed

theorem rest_passed (passed : ¬ loop.counter round ≤ loop.last) :
    (loop.rest round (bound + 1) machine inside).flow? = some (.next inside) := by
  simp only [rest, flow?]
  rw [Evaluation.rounds, if_neg passed]
  rfl

/-- What the rounds come to that are left is what the loop comes to. -/
theorem round_flow (reached : loop.Round round rounds) :
    loop.activity.flow? = rounds.flow?.map (Flow.behind loop.scope) := by
  induction reached with
  | first enters left => rw [loop_rounds enters left, loop_flow]
  | next before enters left ih =>
      obtain ⟨_, machine, inside, rfl, _⟩ := round_rest before
      obtain ⟨less, rfl, more, rfl | ⟨later, after, executed, rfl⟩⟩ := rounds_enters enters
      · cases left
      · rw [ih, rest_next more executed]
        rfl

theorem turn_fuel (turns : loop.Turn round rounds turn) : round < loop.fuel := by
  obtain ⟨bound, machine, inside, rfl, total, _⟩ := round_rest turns.reached
  obtain ⟨less, rfl, _⟩ := rest_block turns.enters turns.runs
  omega

/-- There are so many numbers up to the first one that is beyond the limit, and no block is in the
way of any. -/
structure Ends (loop : Loop) (count : Nat) : Prop where
  more : ∀ round < count, loop.counter round ≤ loop.last
  passed : ¬ loop.counter count ≤ loop.last
  goes : ∀ round rounds turn, loop.Turn round rounds turn → turn.GoesOn

theorem ends_turns (ends : loop.Ends count) :
    (∃ rounds turn, loop.Turn round rounds turn) ↔ round < count ∧ round < loop.fuel := by
  constructor
  · rintro ⟨rounds, turn, turns⟩
    have fuel := turn_fuel turns
    obtain ⟨more, _⟩ := (entered_iff fuel).mp ⟨rounds, turn, turns⟩
    refine ⟨?_, fuel⟩
    by_contra beyond
    exact ends.passed (more count (Nat.not_lt.mp beyond))
  · rintro ⟨within, fuel⟩
    apply (entered_iff fuel).mpr
    constructor
    · intro earlier before
      exact ends.more earlier (Nat.lt_of_le_of_lt before within)
    · intro earlier _
      exact ends.goes earlier

theorem ends_round (ends : loop.Ends count) (within : round ≤ count) (fuel : round ≤ loop.fuel) :
    ∃ bound machine inside, loop.Round round (loop.rest round bound machine inside) ∧
      round + bound = loop.fuel := by
  obtain ⟨rounds, reached⟩ := round_reached fuel
    (fun earlier before => ends.more earlier (Nat.lt_of_lt_of_le before within))
    (fun earlier _ => ends.goes earlier)
  obtain ⟨bound, machine, inside, rfl, total, _⟩ := round_rest reached
  exact ⟨bound, machine, inside, reached, total⟩

theorem ends_flow (ends : loop.Ends count) :
    loop.activity.flow? = some (.next loop.scope) ↔ count < loop.fuel := by
  by_cases enough : count < loop.fuel
  · obtain ⟨bound, machine, inside, reached, total⟩ :=
      ends_round ends (Nat.le_refl count) (Nat.le_of_lt enough)
    obtain ⟨less, rfl⟩ := Nat.exists_eq_add_one_of_ne_zero (by omega : bound ≠ 0)
    rw [round_flow reached, rest_passed ends.passed]
    simp [enough, Flow.behind]
  · obtain ⟨bound, machine, inside, reached, total⟩ :=
      ends_round ends (Nat.not_lt.mp enough) (Nat.le_refl _)
    obtain rfl : bound = 0 := by omega
    rw [round_flow reached]
    simp [enough, rest, flow?, Evaluation.rounds, Eval.exhaust, Outcome.value?]

end

end Loop

/-! Whole numbers. -/

namespace Double

/-- Any whole number with so few digits is a magnitude. -/
theorem natural_bits {n : Int} (small : n.natAbs ≤ 2 ^ 53) :
    ∃ bits < infinityBits, (n * stepsPerUnit).natAbs = steps bits := by
  obtain ⟨bits, finite, count⟩ := steps_natural small
  refine ⟨bits, finite, ?_⟩
  rw [Int.natAbs_mul, Int.natAbs_natCast, count]

theorem add_whole {x y : Float} {n m : Int} (left : toInt? x = some n) (right : toInt? y = some m)
    (small : (n + m).natAbs ≤ 2 ^ 53) : toInt? (x + y) = some (n + m) := by
  obtain ⟨finite, count⟩ := toInt_iff.mp left
  obtain ⟨finite', count'⟩ := toInt_iff.mp right
  have total : Double.count x + Double.count y = (n + m) * stepsPerUnit := by
    rw [count, count', Int.add_mul]
  obtain ⟨bits, bound, worth⟩ := natural_bits small
  rw [← total] at worth
  obtain ⟨finite, exact'⟩ := add_exact finite finite' bound worth
  exact toInt_iff.mpr ⟨finite, exact'.trans total⟩

theorem le_whole {x y : Float} {n m : Int} (left : toInt? x = some n)
    (right : toInt? y = some m) : x ≤ y ↔ n ≤ m := by
  obtain ⟨finite, count⟩ := toInt_iff.mp left
  obtain ⟨finite', count'⟩ := toInt_iff.mp right
  rw [le_iff finite finite', count, count']
  exact Int.mul_le_mul_right (Int.natCast_pos.mpr unit_positive)

end Double

namespace Loop

variable {loop : Loop} {start limit step : Int}

/-- The numbers are whole, and so small that no sum of them is rounded. -/
structure Whole (loop : Loop) (start limit step : Int) : Prop where
  first : Double.toInt? loop.first = some start
  last : Double.toInt? loop.last = some limit
  width : Double.toInt? loop.width = some step
  startSmall : |start| ≤ 2 ^ 52
  limitSmall : |limit| ≤ 2 ^ 52
  positive : 1 ≤ step
  stepSmall : step ≤ 2 ^ 52

/-- Up to the first number beyond the limit no number is rounded. -/
theorem counter_whole (whole : loop.Whole start limit step) {round : Nat}
    (within : ∀ earlier < round, start + earlier * step ≤ limit) :
    Double.toInt? (loop.counter round) = some (start + round * step) := by
  induction round with
  | zero => simpa [counter] using whole.first
  | succ round ih =>
      have before := ih fun earlier less => within earlier (Nat.lt_succ_of_lt less)
      have next : start + round * step + step = start + (round + 1 : Nat) * step := by
        push_cast
        ring
      have few : (start + round * step + step).natAbs ≤ 2 ^ 53 := by
        obtain ⟨_, _, _, startSmall, limitSmall, positive, stepSmall⟩ := whole
        have low : 0 ≤ round * step := Int.mul_nonneg (Int.natCast_nonneg round) (by omega)
        have high := within round (Nat.lt_succ_self round)
        rw [abs_le] at startSmall limitSmall
        omega
      rw [counter, ← next]
      exact Double.add_whole before whole.width few

/-- How many numbers there are up to the limit. -/
theorem within_iff (positive : 1 ≤ step) (round : Nat) :
    start + round * step ≤ limit ↔ round < ((limit - start) / step + 1).toNat := by
  have divides := Int.le_ediv_iff_mul_le (c := step) (a := round) (b := limit - start) (by omega)
  omega

theorem whole_ends (whole : loop.Whole start limit step)
    (goes : ∀ round rounds turn, loop.Turn round rounds turn → turn.GoesOn) :
    loop.Ends ((limit - start) / step + 1).toNat := by
  have more (round : Nat) (within : round ≤ ((limit - start) / step + 1).toNat) :
      loop.counter round ≤ loop.last ↔ start + round * step ≤ limit := by
    refine Double.le_whole (counter_whole whole fun earlier less => ?_) whole.last
    exact (within_iff whole.positive earlier).mpr (Nat.lt_of_lt_of_le less within)
  refine ⟨?_, ?_, goes⟩
  · intro round before
    exact (more round (Nat.le_of_lt before)).mpr ((within_iff whole.positive round).mpr before)
  · rw [more _ (Nat.le_refl _), within_iff whole.positive]
    exact Nat.lt_irrefl _

end Loop

/-- A loop over whole numbers has one round for each number, in steps, up to the limit, as long as
its blocks go on and the fuel lasts. The name is bound to these numbers one after the other, without
any rounding. What stands behind the loop runs in the scope around it, if the fuel is enough. -/
theorem loop_exact (loop : Loop) {session : Session} {first : Activity} {start limit step : Int}
    (reached : session.Reached) (busy : session.Busy first) (visits : Visits first loop.activity)
    (whole : loop.Whole start limit step)
    (goes : ∀ round rounds turn, loop.Turn round rounds turn → turn.GoesOn) :
    ∃ count : Nat, (count : Int) = max 0 ((limit - start) / step + 1) ∧
      (∀ round, (∃ rounds turn, loop.Turn round rounds turn) ↔
        round < count ∧ round < loop.fuel) ∧
      (∀ round rounds turn, loop.Turn round rounds turn → loop.Starts round rounds turn ∧
        Double.toInt? (loop.counter round) = some (start + round * step)) ∧
      (loop.activity.flow? = some (.next loop.scope) ↔ count < loop.fuel) := by
  have ready := Discipline.visits_ready True.intro (busy_ready reached busy) visits
  have ends := Loop.whole_ends whole goes
  have rounds := (Int.toNat_eq_max ((limit - start) / step + 1)).trans (Int.max_comm _ _)
  refine ⟨_, rounds, fun _ => Loop.ends_turns ends, ?_, Loop.ends_flow ends⟩
  intro round rounds turn turns
  refine ⟨Loop.turn_starts ready turns, Loop.counter_whole whole fun earlier less => ?_⟩
  obtain ⟨before, _⟩ := (Loop.ends_turns ends).mp ⟨rounds, turn, turns⟩
  exact (Loop.within_iff whole.positive earlier).mpr (Nat.lt_trans less before)

/-- A loop that steps over its limit. -/
def overshooting : Loop :=
  ⟨4, {}, {}, [], "i", .number 1, .number 6, some (.number 2), [.assign (.name "i") (.number 10)],
    1, 6, 2, _, .byStep rfl rfl rfl⟩

theorem assigns_done (scope : Scope) (name : String) (value : Value) (machine : Machine) :
    ∃ next after, assignName scope name value machine = .done next after := by
  unfold assignName
  split <;> exact ⟨_, _, rfl⟩

theorem overshooting_goes (round : Nat) (rounds turn : Activity)
    (turns : overshooting.Turn round rounds turn) : turn.GoesOn := by
  obtain ⟨_, machine, inside, rfl, rfl, _⟩ := Loop.turn_block turns
  let put := inside.put machine.cells "i" (.number (overshooting.counter round))
  let begun := Machine.begin { machine with cells := put.2 }
    (Statement.assign (.name "i") (.number 10)).summary
  obtain ⟨next, after, assigned⟩ := assigns_done put.1 "i" (.number 10) begun
  have block : executeBlock (apply 4) 4 put.1 [.assign (.name "i") (.number 10)]
      { machine with cells := put.2 } = .done (.next next) after := by
    rw [executeBlock_single, execute]
    exact bind_given assigned
  exact ⟨next, congrArg Outcome.value? block⟩

/-- The last sum is beyond the limit, and the block assigns to the name. -/
theorem loop_exact_overshooting : overshooting.Whole 1 6 2 ∧
    (∀ round rounds turn, overshooting.Turn round rounds turn → turn.GoesOn) ∧
    (∀ round, (∃ rounds turn, overshooting.Turn round rounds turn) ↔ round < 3) ∧
    overshooting.activity.flow? = some (.next overshooting.scope) := by
  have visits : Visits ⟨4, (Session.bare 0).machine, [{}], .executeBlock
      [.loop "i" (.number 1) (.number 6) (some (.number 2)) [.assign (.name "i") (.number 10)]]⟩
      overshooting.activity := .step .refl (.part .statement)
  have whole : overshooting.Whole 1 6 2 :=
    ⟨by decide +kernel, by decide +kernel, by decide +kernel, by decide, by decide, by decide,
      by decide⟩
  obtain ⟨count, same, turns, _, flow⟩ :=
    loop_exact overshooting (.bare 0) (.run 4 _) visits whole overshooting_goes
  obtain rfl : count = 3 := by omega
  have fuel : overshooting.fuel = 4 := rfl
  refine ⟨whole, overshooting_goes, fun round => ?_, flow.mpr (by rw [fuel]; decide)⟩
  rw [turns, fuel]
  omega

end LuaCore
