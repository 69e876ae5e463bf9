import LuaCore.Proofs.Returning
import LuaCore.Proofs.Globals

/-!
Looping: what a loop counts. Its clauses are evaluated before anything is bound, and from there on
it counts by itself: at the start of a round the name has the next number, whatever the block has
done to the name or to its cell. This is one cell in all rounds, either that of the scope around the
loop or one that is new to all scopes there are.
-/

namespace LuaCore

open Evaluation Activity

/-! Cells of scopes. -/

namespace Scope

variable {scope later : Scope} {cells : Cells} {name : String} {value : Value} {cell : Nat}

theorem target_found (found : scope.cell? name = some cell) (cells : Cells) :
    scope.target cells name = cell := by
  rw [target, found]
  rfl

theorem put_target :
    (scope.put cells name value).1.cell? name = some (scope.target cells name) := by
  unfold put target
  cases found : scope.cell? name with
  | some cell => exact found
  | none =>
      have missing : scope.bindings.lookup name = none := found
      simp [cell?, List.lookup_append, missing]

/-- A name that was put has the value. -/
theorem get_put_self (present : ∀ cell, scope.cell? name = some cell → cell < cells.size) :
    (scope.put cells name value).1.get? (scope.put cells name value).2 name = some value := by
  rw [get?, put_target]
  unfold target put
  cases found : scope.cell? name with
  | some own => simp [present own found]
  | none => simp

/-- A scope gets no cell that there was before. -/
theorem put_binds (present : cell < cells.size)
    (binds : (scope.put cells name value).1.Binds cell) : scope.Binds cell := by
  obtain ⟨bound, member⟩ := binds
  rcases scope.put_cases cells name value with ⟨_, _, same⟩ | ⟨_, same⟩
  · rw [same] at member
    exact ⟨bound, member⟩
  · rw [same] at member
    rcases List.mem_append.mp member with member | last
    · exact ⟨bound, member⟩
    · cases List.mem_singleton.mp last
      exact absurd present (Nat.lt_irrefl _)

theorem extends_cell {names : String → Prop} (extends' : scope.Extends names later)
    (found : scope.cell? name = some cell) : later.cell? name = some cell := by
  obtain ⟨added, same, _⟩ := extends'
  have found : scope.bindings.lookup name = some cell := found
  rw [cell?, same, List.lookup_append, found]
  rfl

end Scope

/-! Loops. -/

def Task.IsRounds : Task → Prop
  | .rounds .. => True
  | _ => False

/-- The activity has no result, and what stands behind it runs. -/
def Activity.GoesOn (activity : Activity) : Prop :=
  ∃ next, activity.flow? = some (.next next)

/-- A loop whose clauses are evaluated to numbers, and the machine that they leave. -/
structure Loop where
  fuel : Nat
  machine : Machine
  scope : Scope
  outer : List Scope
  name : String
  start : Expression
  limit : Expression
  step : Option Expression
  body : Block
  first : Float
  last : Float
  width : Float
  after : Machine
  counts : Counts fuel scope (machine.begin (Statement.loop name start limit step body).summary)
    start limit step first last width after

namespace Loop

section

variable (loop : Loop)

def activity : Activity :=
  ⟨loop.fuel, loop.machine, loop.scope :: loop.outer,
    .execute (.loop loop.name loop.start loop.limit loop.step loop.body)⟩

/-- The number of a round. -/
def counter : Nat → Float
  | 0 => loop.first
  | round + 1 => counter round + loop.width

/-- The cell that the scope has for the name, or else a new one. -/
def cell : Nat :=
  loop.scope.target loop.after.cells loop.name

/-- What there is left to do behind some rounds, in the scope that they leave on a machine. -/
def rest (round bound : Nat) (machine : Machine) (inside : Scope) : Activity :=
  ⟨loop.fuel, machine, inside :: loop.scope :: loop.outer,
    .rounds loop.body loop.name loop.last loop.width bound (loop.counter round)⟩

/-- The block of a round, with the name bound to the number. -/
def block (round : Nat) (machine : Machine) (inside : Scope) : Activity :=
  let bound := inside.put machine.cells loop.name (.number (loop.counter round))
  ⟨loop.fuel, { machine with cells := bound.2 }, bound.1 :: loop.scope :: loop.outer,
    .executeBlock loop.body⟩

/-- What the loop comes to when a number of rounds are over. -/
inductive Round : Nat → Activity → Prop where
  | first {rounds : Activity} (enters : Enters loop.activity rounds)
      (left : rounds.task.IsRounds) : Round 0 rounds
  | next {round : Nat} {rounds next : Activity} (before : Round round rounds)
      (enters : Enters rounds next) (left : next.task.IsRounds) : Round (round + 1) next

/-- The block is entered in a round. -/
structure Turn (round : Nat) (rounds turn : Activity) : Prop where
  reached : loop.Round round rounds
  enters : Enters rounds turn
  runs : turn.task = .executeBlock loop.body

/-- The scope is there when the rounds start, in use or captured by a function. -/
def Outside (scope : Scope) : Prop :=
  scope ∈ loop.scope :: loop.outer ∨ loop.after.Captures scope

/-- The clauses are evaluated in order, once each and in the scope of the loop, and then the rounds
start in a copy of it. Each of these starts on the very machine that the one before it ends on. -/
structure Clauses (clauses : List Activity) : Prop where
  stages : loop.activity.stages = clauses ++ [loop.rest 0 loop.fuel loop.after loop.scope]
  tasks : clauses.map (fun stage => (stage.scopes, stage.task)) =
    (loop.start :: loop.limit :: loop.step.toList).map fun clause =>
      (loop.scope :: loop.outer, .evaluate clause)
  first : ∀ stage ∈ clauses.head?, stage.machine = loop.activity.begun
  follows : loop.activity.stages.IsChain fun stage next => stage.machine? = some next.machine

/-- The block starts with the number of the round in the cell of the loop, and nothing else has
changed. -/
structure Starts (round : Nat) (rounds turn : Activity) : Prop where
  bound : ∃ inside, turn.scopes = inside :: loop.scope :: loop.outer ∧
    inside.cell? loop.name = some loop.cell ∧
    inside.get? turn.machine.cells loop.name = some (.number (loop.counter round))
  same : turn.machine = { rounds.machine with cells := turn.machine.cells }
  cells : ∀ cell ≠ loop.cell, turn.machine.cells[cell]? = rounds.machine.cells[cell]?
  globals : ∀ name, turn.machine.global? name = rounds.machine.global? name

/-- No scope outside has the cell of the loop, and while the loop runs neither the global scope nor
any scope without the cell gets it. So what is read in the scopes outside is not changed by a new
round. -/
structure Hidden : Prop where
  unseen : ∀ scope, loop.Outside scope → ¬ scope.Binds loop.cell
  stays : ∀ round rounds turn inner, loop.Turn round rounds turn → Visits turn inner →
    ¬ inner.machine.globals.Binds loop.cell ∧
    ∀ scope : Scope, ¬ scope.Binds loop.cell → ∀ name value,
      ¬ (scope.put inner.machine.cells name value).1.Binds loop.cell
  reads : ∀ round rounds turn, loop.Turn round rounds turn → ∀ scope, loop.Outside scope →
    ∀ name, turn.machine.lookup scope name = rounds.machine.lookup scope name

end

/-! Entering. -/

/-- The clauses and the rounds are entered one after the other. -/
theorem counts_stages {fuel : Nat} {machine after : Machine} {scope : Scope} {outer : List Scope}
    {name : String} {start limit : Expression} {step : Option Expression} {body : Block}
    {first last width : Float}
    (counts : Counts fuel scope machine start limit step first last width after) :
    ∃ clauses, statementStages fuel scope outer machine (.loop name start limit step body) =
      clauses ++ [⟨fuel, after, scope :: scope :: outer, .rounds body name last width fuel first⟩] ∧
    clauses.map (fun stage => (stage.scopes, stage.task)) =
      (start :: limit :: step.toList).map (fun clause => (scope :: outer, .evaluate clause)) ∧
    (∀ stage ∈ clauses.head?, stage.machine = machine) ∧
    (statementStages fuel scope outer machine (.loop name start limit step body)).IsChain
      fun stage next => stage.machine? = some next.machine := by
  cases counts with
  | @byOne middle _ _ _ gives gives' =>
      have stages : statementStages fuel scope outer machine (.loop name start limit none body) =
          [inside fuel scope outer machine (.evaluate start),
            inside fuel scope outer middle (.evaluate limit),
            ⟨fuel, after, scope :: scope :: outer, .rounds body name last 1 fuel first⟩] := by
        simp only [statementStages, number_given gives, number_given gives', Outcome.behind]
      rw [stages]
      refine ⟨[_, _], rfl, rfl, ?_, ?_⟩
      · rintro _ ⟨⟩
        rfl
      · exact .cons_cons (congrArg Outcome.machine? gives)
          (.cons_cons (congrArg Outcome.machine? gives') (.singleton _))
  | @byStep middle further _ step _ _ _ gives gives' gives'' =>
      have stages : statementStages fuel scope outer machine
          (.loop name start limit (some step) body) =
          [inside fuel scope outer machine (.evaluate start),
            inside fuel scope outer middle (.evaluate limit),
            inside fuel scope outer further (.evaluate step),
            ⟨fuel, after, scope :: scope :: outer, .rounds body name last width fuel first⟩] := by
        simp only [statementStages, number_given gives, number_given gives', number_given gives'',
          Outcome.behind]
      rw [stages]
      refine ⟨[_, _, _], rfl, rfl, ?_, ?_⟩
      · rintro _ ⟨⟩
        rfl
      · exact .cons_cons (congrArg Outcome.machine? gives)
          (.cons_cons (congrArg Outcome.machine? gives')
            (.cons_cons (congrArg Outcome.machine? gives'') (.singleton _)))

theorem rounds_enters {fuel bound : Nat} {machine : Machine} {inside : Scope} {outer : List Scope}
    {body : Block} {name : String} {limit step counter : Float} {next : Activity}
    (enters : Enters ⟨fuel, machine, inside :: outer, .rounds body name limit step bound counter⟩
      next) :
    ∃ less, bound = less + 1 ∧ counter ≤ limit ∧
      let put := inside.put machine.cells name (.number counter)
      let start := { machine with cells := put.2 }
      (next = ⟨fuel, start, put.1 :: outer, .executeBlock body⟩ ∨
      ∃ later after, executeBlock (apply fuel) fuel put.1 body start = .done (.next later) after ∧
        next =
          ⟨fuel, after, later :: outer, .rounds body name limit step less (counter + step)⟩) := by
  cases enters with
  | part part => cases part
  | round more => exact ⟨_, rfl, more, .inl rfl⟩
  | nextRound more executed => exact ⟨_, rfl, more, .inr ⟨_, _, executed, rfl⟩⟩

section

variable {loop : Loop} {round earlier bound : Nat} {machine : Machine} {inside : Scope}
  {rounds rounds' turn turn' next : Activity}

theorem clauses (loop : Loop) : ∃ clauses, loop.Clauses clauses := by
  obtain ⟨clauses, stages, tasks, first, follows⟩ := counts_stages loop.counts
  exact ⟨clauses, stages, tasks, first, follows⟩

theorem loop_rounds (enters : Enters loop.activity rounds) (left : rounds.task.IsRounds) :
    rounds = loop.rest 0 loop.fuel loop.after loop.scope := by
  obtain ⟨clauses, splits⟩ := loop.clauses
  have member := enters_stage enters
  rw [splits.stages] at member
  rcases List.mem_append.mp member with clause | last
  · have evaluates := List.mem_map_of_mem (f := fun stage => (stage.scopes, stage.task)) clause
    rw [splits.tasks] at evaluates
    obtain ⟨clause, _, same⟩ := List.mem_map.mp evaluates
    rw [← (Prod.mk.inj same).2] at left
    cases left
  · exact List.mem_singleton.mp last

theorem rest_rounds (enters : Enters (loop.rest round bound machine inside) next)
    (left : next.task.IsRounds) :
    ∃ less later after, bound = less + 1 ∧ loop.counter round ≤ loop.last ∧
      next = loop.rest (round + 1) less after later ∧
      (loop.block round machine inside).flow? = some (.next later) ∧
      (inside.put machine.cells loop.name (.number (loop.counter round))).1.Extends
        (fun _ => True) later := by
  obtain ⟨less, rfl, more, rfl | ⟨later, after, executed, rfl⟩⟩ := rounds_enters enters
  · cases left
  · have grown := extends_mono (fun _ _ => True.intro) (executeBlock_extends executed)
    exact ⟨less, later, after, rfl, more, rfl, congrArg Outcome.value? executed, grown⟩

theorem rest_block (enters : Enters (loop.rest round bound machine inside) turn)
    (runs : turn.task = .executeBlock loop.body) :
    ∃ less, bound = less + 1 ∧ loop.counter round ≤ loop.last ∧
      turn = loop.block round machine inside := by
  obtain ⟨less, rfl, more, rfl | ⟨later, after, executed, rfl⟩⟩ := rounds_enters enters
  · exact ⟨less, rfl, more, rfl⟩
  · cases runs

/-- The counting and the cell are the same in all rounds, whatever their blocks do. -/
theorem round_rest (reached : loop.Round round rounds) : ∃ bound machine inside,
    rounds = loop.rest round bound machine inside ∧ round + bound = loop.fuel ∧
      inside.target machine.cells loop.name = loop.cell := by
  -- The block only adds bindings behind that of the name, so the next round finds the same cell.
  induction reached with
  | first enters left => exact ⟨_, _, _, loop_rounds enters left, Nat.zero_add _, rfl⟩
  | next _ enters left ih =>
      obtain ⟨bound, machine, inside, rfl, total, target⟩ := ih
      obtain ⟨less, later, after, rfl, _, same, _, grown⟩ := rest_rounds enters left
      refine ⟨less, after, later, same, by omega, ?_⟩
      rw [← target]
      exact Scope.target_found (Scope.extends_cell grown Scope.put_target) _

theorem turn_block (turns : loop.Turn round rounds turn) : ∃ bound machine inside,
    rounds = loop.rest round bound machine inside ∧ turn = loop.block round machine inside ∧
      loop.counter round ≤ loop.last ∧ inside.target machine.cells loop.name = loop.cell := by
  obtain ⟨bound, machine, inside, rfl, _, target⟩ := round_rest turns.reached
  obtain ⟨_, _, more, same⟩ := rest_block turns.enters turns.runs
  exact ⟨bound, machine, inside, rfl, same, more, target⟩

theorem round_unique (reached : loop.Round round rounds) (reached' : loop.Round round rounds') :
    rounds = rounds' := by
  -- Rounds are left on the machine that the block ends on, and it ends on one only.
  induction reached generalizing rounds' with
  | first enters left =>
      cases reached' with
      | first enters' left' =>
          exact (loop_rounds enters left).trans (loop_rounds enters' left').symm
  | next before enters left ih =>
      cases reached' with
      | next before' enters' left' =>
          obtain rfl := ih before'
          obtain ⟨_, machine, inside, rfl, _⟩ := round_rest before
          obtain ⟨less, rfl, _, rfl | ⟨later, after, executed, rfl⟩⟩ := rounds_enters enters
          · cases left
          · obtain ⟨_, ⟨⟩, _, rfl | ⟨_, _, executed', rfl⟩⟩ := rounds_enters enters'
            · cases left'
            · cases executed.symm.trans executed'
              rfl

theorem turn_unique (turns : loop.Turn round rounds turn) (turns' : loop.Turn round rounds' turn') :
    turn = turn' := by
  obtain ⟨_, machine, inside, rfl, rfl, _⟩ := turn_block turns
  obtain rfl := round_unique turns.reached turns'.reached
  obtain ⟨_, _, _, rfl⟩ := rest_block turns'.enters turns'.runs
  rfl

/-- Behind a round that goes on there are the rounds that are left. -/
theorem turn_next (reached : loop.Round round (loop.rest round (bound + 1) machine inside))
    (more : loop.counter round ≤ loop.last) (goes : (loop.block round machine inside).GoesOn) :
    ∃ next, loop.Round (round + 1) next := by
  obtain ⟨later, flows⟩ := goes
  obtain ⟨after, executed⟩ := value_done flows
  exact ⟨_, .next reached (.nextRound more executed) True.intro⟩

/-- There are no rounds behind one that has a result or that starts beyond the limit. -/
theorem round_passed (reached : loop.Round round rounds) (before : earlier < round) :
    ∃ rounds turn, loop.Turn earlier rounds turn ∧ turn.GoesOn ∧
      loop.counter earlier ≤ loop.last := by
  induction reached with
  | first => cases before
  | @next round _ _ reached enters left ih =>
      rcases Nat.lt_succ_iff_lt_or_eq.mp before with before | rfl
      · exact ih before
      · obtain ⟨_, machine, inside, rfl, _⟩ := round_rest reached
        obtain ⟨_, later, _, rfl, more, _, flows, _⟩ := rest_rounds enters left
        exact ⟨_, _, ⟨reached, .round more, rfl⟩, ⟨later, flows⟩, more⟩

theorem round_reached (fuel : round ≤ loop.fuel)
    (more : ∀ earlier < round, loop.counter earlier ≤ loop.last)
    (goes : ∀ earlier < round, ∀ rounds turn, loop.Turn earlier rounds turn → turn.GoesOn) :
    ∃ rounds, loop.Round round rounds := by
  induction round with
  | zero => exact ⟨_, .first (.loop loop.counts) True.intro⟩
  | succ round ih =>
      obtain ⟨_, reached⟩ := ih (Nat.le_of_succ_le fuel)
        (fun earlier before => more earlier (Nat.lt_succ_of_lt before))
        (fun earlier before => goes earlier (Nat.lt_succ_of_lt before))
      obtain ⟨bound, machine, inside, rfl, total, _⟩ := round_rest reached
      have more := more round (Nat.lt_succ_self round)
      obtain ⟨less, rfl⟩ := Nat.exists_eq_add_one_of_ne_zero (by omega : bound ≠ 0)
      exact turn_next reached more
        (goes round (Nat.lt_succ_self round) _ _ ⟨reached, .round more, rfl⟩)

/-- The block is entered in a round just if the numbers up to there are within the limit and the
blocks before it go on. -/
theorem entered_iff (fuel : round < loop.fuel) :
    (∃ rounds turn, loop.Turn round rounds turn) ↔
      (∀ earlier ≤ round, loop.counter earlier ≤ loop.last) ∧
      ∀ earlier < round, ∀ rounds turn, loop.Turn earlier rounds turn → turn.GoesOn := by
  constructor
  · rintro ⟨rounds, turn, turns⟩
    constructor
    · intro earlier within
      rcases Nat.lt_or_eq_of_le within with before | rfl
      · obtain ⟨_, _, _, _, more⟩ := round_passed turns.reached before
        exact more
      · obtain ⟨_, _, _, _, _, more, _⟩ := turn_block turns
        exact more
    · intro earlier before rounds' turn' turns'
      obtain ⟨_, _, passed, goes, _⟩ := round_passed turns.reached before
      rw [turn_unique turns' passed]
      exact goes
  · rintro ⟨more, goes⟩
    obtain ⟨rounds, reached⟩ := round_reached (Nat.le_of_lt fuel)
      (fun earlier before => more earlier (Nat.le_of_lt before)) goes
    obtain ⟨bound, machine, inside, rfl, total, _⟩ := round_rest reached
    obtain ⟨less, rfl⟩ := Nat.exists_eq_add_one_of_ne_zero (by omega : bound ≠ 0)
    exact ⟨_, _, reached, .round (more round (Nat.le_refl round)), rfl⟩

theorem round_visits (reached : loop.Round round rounds) : Visits loop.activity rounds := by
  induction reached with
  | first enters => exact .step .refl enters
  | next _ enters _ ih => exact .step ih enters

end

/-! The cell. -/

section

variable {loop : Loop} {round : Nat} {rounds turn inner : Activity}

theorem turn_ready (ready : Discipline.apart.Ready loop.activity)
    (turns : loop.Turn round rounds turn) :
    Discipline.apart.Ready rounds ∧ Discipline.apart.Ready turn := by
  have before := Discipline.visits_ready True.intro ready (round_visits turns.reached)
  exact ⟨before, Discipline.enters_ready True.intro before turns.enters⟩

/-- The cell of the loop is there while the loop runs, and is none of the global scope. -/
theorem cell_known (ready : Discipline.apart.Ready loop.activity)
    (turns : loop.Turn round rounds turn) (visits : Visits turn inner) :
    Discipline.apart.knows inner.machine (.cell loop.cell) := by
  obtain ⟨_, machine, inside, rfl, rfl, _, target⟩ := turn_block turns
  have ready := Discipline.visits_ready True.intro (turn_ready ready turns).2 visits
  obtain ⟨added, base, scopes, grown, _⟩ := visits_scopes visits
  -- Whatever the block does is done inside of the scope with the name, which only grows.
  have bound := @Scope.put_target inside machine.cells loop.name (.number (loop.counter round))
  rw [target] at bound
  have found : ∃ scope ∈ base, scope.cell? loop.name = some loop.cell := by
    cases grown with
    | refl => exact ⟨_, List.mem_cons_self, bound⟩
    | first extends' => exact ⟨_, List.mem_cons_self, Scope.extends_cell extends' bound⟩
  obtain ⟨scope, member, found⟩ := found
  have used : scope ∈ inner.scopes := by
    rw [scopes]
    exact List.mem_append_right _ member
  exact ready.sees scope used _ (Scope.cell_mem found)

theorem turn_starts (ready : Discipline.apart.Ready loop.activity)
    (turns : loop.Turn round rounds turn) : loop.Starts round rounds turn := by
  have known := cell_known ready turns .refl
  have before := (turn_ready ready turns).1
  obtain ⟨_, machine, inside, rfl, rfl, _, target⟩ := turn_block turns
  refine ⟨⟨_, rfl, ?_, ?_⟩, rfl, ?_, ?_⟩
  · rw [← target]
    exact Scope.put_target
  · apply Scope.get_put_self
    intro cell found
    exact (before.sees inside List.mem_cons_self _ (Scope.cell_mem found)).1
  · rw [← target]
    intro cell other
    exact Scope.put_elsewhere other
  · intro name
    apply Scope.get_elsewhere
    rw [target]
    exact known.2

theorem loop_hidden (ready : Discipline.apart.Ready loop.activity)
    (unbound : loop.scope.cell? loop.name = none) : loop.Hidden := by
  have fresh : loop.cell = loop.after.cells.size := by
    unfold cell Scope.target
    rw [unbound]
    rfl
  have ready' := Discipline.enters_ready True.intro ready (.loop loop.counts)
  have unseen (scope : Scope) (outside : loop.Outside scope) : ¬ scope.Binds loop.cell := by
    have sees : Discipline.apart.Sees loop.after scope := by
      rcases outside with used | captured
      · exact ready'.sees scope (List.mem_cons_of_mem _ used)
      · exact captured_sees ready'.sound captured
    rintro ⟨name, member⟩
    rw [fresh] at member
    exact Nat.lt_irrefl _ (sees _ member).1
  refine ⟨unseen, ?_, ?_⟩
  · intro round rounds turn inner turns visits
    have known := cell_known ready turns visits
    refine ⟨known.2, ?_⟩
    intro scope missing name value binds
    exact missing (Scope.put_binds known.1 binds)
  · intro round rounds turn turns scope outside name
    have globals := (turn_starts ready turns).globals
    obtain ⟨_, machine, inside, rfl, rfl, _, target⟩ := turn_block turns
    have missing := unseen scope outside
    rw [← target] at missing
    have locals := @Scope.get_elsewhere inside _ _ _ (.number (loop.counter round)) missing name
    exact congrArg₂ (fun found global => (Option.or found global).getD .nil) locals (globals name)

end

end Loop

/-- A loop evaluates its clauses to numbers before anything is bound, and then counts by itself. As
far as the fuel goes, the block is entered for one number after the other up to the limit, as long
as it goes on. It starts with the name at that number, whatever was done to the name or to any cell
before. All rounds have the name in one cell: that of the scope around the loop, or else one that no
scope outside has, so that a new round changes nothing there. -/
theorem loop_counts (loop : Loop) {session : Session} {first : Activity} (reached : session.Reached)
    (busy : session.Busy first) (visits : Visits first loop.activity) :
    (∃ clauses, loop.Clauses clauses) ∧
    (∀ round < loop.fuel, (∃ rounds turn, loop.Turn round rounds turn) ↔
      (∀ earlier ≤ round, loop.counter earlier ≤ loop.last) ∧
      ∀ earlier < round, ∀ rounds turn, loop.Turn earlier rounds turn → turn.GoesOn) ∧
    (∀ round rounds turn, loop.Turn round rounds turn → loop.Starts round rounds turn) ∧
    (loop.scope.cell? loop.name = some loop.cell ∨
      loop.scope.cell? loop.name = none ∧ loop.Hidden) := by
  have ready := Discipline.visits_ready True.intro (busy_ready reached busy) visits
  refine ⟨loop.clauses, fun _ => Loop.entered_iff, fun _ _ _ => Loop.turn_starts ready, ?_⟩
  cases bound : loop.scope.cell? loop.name with
  | none => exact .inr ⟨rfl, Loop.loop_hidden ready bound⟩
  | some cell =>
      left
      rw [Loop.cell, Scope.target_found bound]

/-- A loop over two numbers whose block assigns to the name. -/
def reassigned : Loop :=
  ⟨3, {}, {}, [], "i", .number 1, .number 2, none, [.assign (.name "i") (.number 10)], 1, 2, 1, _,
    .byOne rfl rfl⟩

/-- The second round starts with the second number in the cell that the first block has written. -/
theorem loop_counts_reassigned :
    ∃ rounds turn inside, reassigned.Turn 1 rounds turn ∧
      inside.get? rounds.machine.cells "i" = some (.number 10) ∧
      turn.scopes = [inside, {}] ∧ inside.cell? "i" = some 0 ∧
      inside.get? turn.machine.cells "i" = some (.number 2) ∧ reassigned.Hidden := by
  have visits : Visits ⟨3, (Session.bare 0).machine, [{}], .executeBlock
      [.loop "i" (.number 1) (.number 2) none [.assign (.name "i") (.number 10)]]⟩
      reassigned.activity := .step .refl (.part .statement)
  obtain ⟨_, _, starts, own | ⟨_, hidden⟩⟩ := loop_counts reassigned (.bare 0) (.run 3 _) visits
  · cases own
  have second : reassigned.Round 1 _ :=
    .next (.first (.loop reassigned.counts) True.intro) (.nextRound (by decide +kernel) rfl)
      True.intro
  have turns : reassigned.Turn 1 _ _ := ⟨second, .round (by decide +kernel), rfl⟩
  obtain ⟨_, ⟨⟩, bound, value⟩ := (starts _ _ _ turns).bound
  have number : reassigned.counter 1 = 2 := by decide +kernel
  rw [number] at value
  exact ⟨_, _, _, turns, rfl, rfl, bound, value, hidden⟩

end LuaCore
