import Mathlib.Data.List.Nodup
import LuaCore.Proofs.Progress
import LuaCore.Proofs.Separation

/-!
Accounting: what the counters of a machine say. The steps are the statements that were executed,
each of which has a number of its own. The depth is the number of functions that are active. Both
hold in the middle of a run and behind every failure, whether or not somebody has caught that.
-/

namespace LuaCore

open Evaluation

/-- The depth stays, and no step is taken back. -/
structure Machine.Level (machine next : Machine) : Prop where
  depth : next.depth = machine.depth
  steps : machine.steps ≤ next.steps

theorem level_same {machine next : Machine} (depth : next.depth = machine.depth)
    (steps : next.steps = machine.steps) : machine.Level next :=
  ⟨depth, Nat.le_of_eq steps.symm⟩

/-- Programs know everything, and are on one level. -/
def Discipline.level : Discipline where
  knows _ _ := True
  demands _ := True
  moves := Machine.Level
  lenient := True
  moves_refl _ := level_same rfl rfl
  moves_trans first second :=
    ⟨second.depth.trans first.depth, Nat.le_trans first.steps second.steps⟩
  knows_alike _ _ := True.intro
  knows_newCell _ _ _ := ⟨.inl, fun _ => True.intro⟩
  knows_newGlobal _ _ := True.intro
  newGlobal_knows _ _ := .inl True.intro
  knows_newTable _ _ := ⟨.inl, fun _ => True.intro⟩
  knows_newFunction _ _ _ := ⟨.inl, fun _ => True.intro⟩
  quiet quiet _ := ⟨True.intro, quiet.depth.symm, quiet.steps⟩
  depth _ _ := True.intro
  activation := by
    intro machine next level
    refine ⟨?_, level.steps⟩
    have depth : next.depth = machine.depth + 1 := level.depth
    change next.depth - 1 = machine.depth
    omega
  writeCell _ _ _ := ⟨True.intro, level_same rfl rfl⟩
  newCell _ _ := ⟨True.intro, level_same rfl rfl⟩
  newGlobal _ _ _ := ⟨True.intro, level_same rfl rfl⟩
  newTable _ := ⟨True.intro, level_same rfl rfl⟩
  newFunction _ _ := ⟨True.intro, level_same rfl rfl⟩
  setTable _ _ _ _ := ⟨True.intro, level_same rfl rfl⟩

theorem level_sound (machine : Machine) : Discipline.level.Sound machine :=
  ⟨True.intro, fun _ _ _ _ => True.intro, fun _ _ _ _ _ _ _ => True.intro, fun id _ => by
    cases machine.callable id <;> exact .inl True.intro⟩

theorem level_sees (machine : Machine) (scope : Scope) : Discipline.level.Sees machine scope :=
  fun _ _ => True.intro

theorem level_permits (machine : Machine) (task : Task) :
    Discipline.level.Permits machine task := by
  cases task with
  | apply => exact ⟨fun _ _ => True.intro, fun _ _ _ _ => True.intro⟩
  | _ => exact True.intro

/-- An activity ends on the level that it starts on. -/
theorem ends_level {activity : Activity} {after : Machine}
    (ends : activity.machine? = some after) : activity.machine.Level after := by
  have ready : Discipline.level.Ready activity :=
    ⟨level_sound _, fun scope _ => level_sees _ scope, level_permits _ _⟩
  exact (Discipline.ends_ready True.intro ready ends).2.moves

theorem applied_level {fuel : Nat} {function result : Value} {arguments : List Value}
    {machine after : Machine}
    (applied : apply fuel function arguments machine = .done result after) :
    machine.Level after := by
  have ends : Activity.machine? ⟨fuel, machine, [], .apply function arguments⟩ = some after :=
    congrArg Outcome.machine? applied
  exact ends_level ends

/-! Active functions. -/

/-- The body of a function is entered. -/
inductive Activates : Activity → Closure → Activity → Prop where
  | body {fuel : Nat} {machine entered : Machine} {scopes : List Scope} {id : Nat}
      {closure : Closure} {arguments : List Value} {scope : Scope}
      (found : machine.callable id = .closure closure)
      (enters : enter closure arguments machine = .done scope entered) :
      Activates ⟨fuel + 1, machine, scopes, .apply (.function id) arguments⟩ closure
        ⟨fuel, entered, scope :: scopes, .executeBlock closure.body⟩

/-- While the first activity goes on the second one starts, in so many active functions, of which
the innermost one comes first. -/
inductive Running (first : Activity) : List Closure → Activity → Prop where
  | start : Running first [] first
  | enters {active : List Closure} {middle inner : Activity} (running : Running first active middle)
      (enters : Enters middle inner) (same : ∀ closure, ¬ Activates middle closure inner) :
      Running first active inner
  | activates {active : List Closure} {middle inner : Activity} {closure : Closure}
      (running : Running first active middle) (activates : Activates middle closure inner) :
      Running first (closure :: active) inner

theorem visits_running {first activity : Activity} (visits : Visits first activity) :
    ∃ active, Running first active activity := by
  induction visits with
  | refl => exact ⟨[], .start⟩
  | @step middle inner _ enters ih =>
      obtain ⟨active, running⟩ := ih
      by_cases activated : ∃ closure, Activates middle closure inner
      · obtain ⟨closure, activates⟩ := activated
        exact ⟨closure :: active, .activates running activates⟩
      · exact ⟨active, .enters running enters (not_exists.mp activated)⟩

/-- Only the body of a function is on another level than what enters it. -/
theorem enters_level {first second : Activity} (enters : Enters first second)
    (same : ∀ closure, ¬ Activates first closure second) :
    first.machine.Level second.machine := by
  have trans {machine middle last : Machine} (before : machine.Level middle)
      (behind : middle.Level last) : machine.Level last :=
    Discipline.level.moves_trans before behind
  cases enters with
  | part part =>
      exact (Discipline.part_keeps True.intro (level_sound _) (level_sees _ _)
        (level_permits _ _) part).1.2.moves
  | @call fuel machine called after scope outer callee arguments id values gives given =>
      have evaluated := Discipline.gives_keeps True.intro (level_sound _) (level_sees _ _) gives
      have all := Discipline.evaluatesAll_keeps True.intro (level_sound _) (level_sees _ _) given
      exact trans evaluated.1.2.moves all.1.2.moves
  | following executed =>
      exact (Discipline.executes_keeps True.intro (level_sound _)
        (level_sees _ _) executed).1.2.moves
  | loop counts =>
      have counted := Discipline.counts_keeps True.intro (level_sound _) (level_sees _ _) counts
      exact trans (Discipline.begun_keeps (level_sound _) (level_sees _ {}) _).1.2.moves
        counted.2.moves
  | round | once | attempt => exact level_same rfl rfl
  | nextRound inside executed =>
      have ran := Discipline.runs_keeps True.intro (level_sound _) (level_sees _ _) executed
      exact ⟨ran.1.2.moves.depth, ran.1.2.moves.steps⟩
  | activation found enters => exact absurd (.body found enters) (same _)
  | twice found applied =>
      exact applied_level applied

/-- The depth counts the active functions, wherever a run is. -/
theorem running_depth {first activity : Activity} {active : List Closure}
    (running : Running first active activity) :
    activity.machine.depth = first.machine.depth + active.length := by
  induction running with
  | start => rfl
  | enters _ enters same ih => exact (enters_level enters same).depth.trans ih
  | activates _ activates ih =>
      cases activates with
      | body found enters =>
          cases enters
          change _ + 1 = _ + (_ + 1)
          rw [← Nat.add_assoc, ← ih]

/-! Executed statements. -/

/-- A statement is executed. -/
def Activity.IsExecution (activity : Activity) : Prop :=
  ∃ statement, activity.task = .execute statement

/-- The activities are the executions of statements in the course of another one, each of them
once. -/
structure Executions (activity : Activity) (executed : List Activity) : Prop where
  exact : ∀ inner, inner ∈ executed ↔ Visits activity inner ∧ inner.IsExecution
  distinct : executed.Nodup

/-- The entry of a statement, under the number that it gets. -/
def Activity.entry? (activity : Activity) : Option TraceEntry :=
  match activity.task with
  | .execute statement =>
      some ⟨activity.machine.steps + 1, activity.machine.depth, statement.summary⟩
  | _ => none

/-- The second activity goes on inside of the first one, or inside of a later stage of something
that the first one is a part of. -/
inductive Before : Activity → Activity → Prop where
  | inside {outer middle inner : Activity} (enters : Enters outer middle)
      (visits : Visits middle inner) : Before outer inner
  | apart {around early late first second : Activity} (stages : [early, late].Sublist around.stages)
      (visits : Visits early first) (visits' : Visits late second) : Before first second

/-- The activities start with the steps from one number up to another one, and are traced if
anything is. -/
structure Numbered (machine : Machine) (executed : List Activity) (after : Machine) : Prop where
  numbers : executed.map (fun inner => inner.machine.steps) =
    List.range' machine.steps executed.length
  steps : after.steps = machine.steps + executed.length
  verbosity : after.verbosity = machine.verbosity
  trace : after.trace =
    machine.trace ++ if 0 < machine.verbosity then executed.filterMap Activity.entry? else []

theorem numbered_none {machine next : Machine} (silent : Silent machine next) :
    Numbered machine [] next := by
  obtain ⟨steps, verbosity, trace⟩ := silent_iff.mp silent
  exact ⟨rfl, steps, verbosity, by simp [trace]⟩

theorem numbered_append {machine middle after : Machine} {executed others : List Activity}
    (first : Numbered machine executed middle) (second : Numbered middle others after) :
    Numbered machine (executed ++ others) after := by
  constructor
  · rw [List.map_append, first.numbers, second.numbers, first.steps, List.length_append,
      ← List.range'_append_1]
  · rw [second.steps, first.steps, List.length_append, Nat.add_assoc]
  · exact second.verbosity.trans first.verbosity
  · rw [second.trace, first.trace, first.verbosity, List.filterMap_append, List.append_assoc]
    by_cases verbose : 0 < machine.verbosity
    · simp only [if_pos verbose]
    · simp only [if_neg verbose, List.append_nil]

theorem numbered_silent {machine next after : Machine} {executed : List Activity}
    (silent : Silent machine next) (numbered : Numbered next executed after) :
    Numbered machine executed after :=
  numbered_append (numbered_none silent) numbered

/-- The executions of an activity that ends are counted by its steps, in their order. -/
def Counted (activity : Activity) : Prop :=
  ∀ after, activity.machine? = some after → ∃ executed,
    (∀ inner, inner ∈ executed ↔ Visits activity inner ∧ inner.IsExecution) ∧
      executed.Pairwise Before ∧ Numbered activity.machine executed after

theorem passes_counted {machine after : Machine} {stages : List Activity}
    (passes : Passes machine stages after) (counted : ∀ stage ∈ stages, Counted stage)
    (apart : stages.Pairwise fun early late =>
      ∀ first second, Visits early first → Visits late second → Before first second) :
    ∃ executed, (∀ inner, inner ∈ executed ↔
      ∃ stage ∈ stages, Visits stage inner ∧ inner.IsExecution) ∧
      executed.Pairwise Before ∧ Numbered machine executed after := by
  induction passes with
  | done silent => exact ⟨[], by simp, .nil, numbered_none silent⟩
  | @stage machine next last stage stages silent ends _ ih =>
      obtain ⟨behind, apart⟩ := List.pairwise_cons.mp apart
      obtain ⟨executed, exact', ordered, numbered⟩ := counted stage List.mem_cons_self next ends
      obtain ⟨others, exact'', ordered', numbered'⟩ :=
        ih (fun other member => counted other (List.mem_cons_of_mem stage member)) apart
      refine ⟨executed ++ others, ?_, ?_,
        numbered_append (numbered_silent silent numbered) numbered'⟩
      · intro inner
        simp only [List.mem_append, exact', exact'', List.mem_cons, exists_eq_or_imp]
      · refine List.pairwise_append.mpr ⟨ordered, ordered', ?_⟩
        intro first member second member'
        obtain ⟨late, later, visits', _⟩ := (exact'' second).mp member'
        exact behind late later first second ((exact' first).mp member).1 visits'

theorem begin_steps (machine : Machine) (summary : String) :
    (machine.begin summary).steps = machine.steps + 1 := by
  unfold Machine.begin
  split <;> rfl

theorem begin_trace (machine : Machine) (summary : String) :
    (machine.begin summary).trace = machine.trace ++
      if 0 < machine.verbosity then [⟨machine.steps + 1, machine.depth, summary⟩] else [] := by
  unfold Machine.begin
  by_cases verbose : 0 < machine.verbosity
  · simp [if_pos verbose, Machine.trace, Machine.emit, Event.entry?]
  · simp [if_neg verbose, Machine.trace]

/-- The execution of a statement counts itself first. -/
theorem begun_numbered (activity : Activity) :
    (activity.IsExecution ∧ Numbered activity.machine [activity] activity.begun) ∨
      (¬ activity.IsExecution ∧ Numbered activity.machine [] activity.begun) := by
  obtain ⟨fuel, machine, scopes, task⟩ := activity
  cases task with
  | execute statement =>
      refine .inl ⟨⟨statement, rfl⟩, rfl, begin_steps _ _, ?_, begin_trace _ _⟩
      exact (Machine.begin_quiet machine _).verbosity.symm
  | _ => exact .inr ⟨(by rintro ⟨_, ⟨⟩⟩), numbered_none rfl⟩

theorem activity_counted (activity : Activity) : Counted activity := by
  induction activity using enters_induction with
  | step activity ih =>
      intro after ends
      obtain ⟨entered, passes, _, _⟩ := activity_staged ends
      have apart : activity.stages.Pairwise fun early late =>
          ∀ first second, Visits early first → Visits late second → Before first second :=
        List.pairwise_iff_forall_sublist.mpr fun stages _ _ visits visits' =>
          .apart stages visits visits'
      obtain ⟨others, exact', ordered, numbered⟩ := passes_counted (passes after ends)
        (fun stage member => ih stage ((entered stage).mpr member)) apart
      have inside (inner : Activity) : inner ∈ others ↔
          (∃ stage, Enters activity stage ∧ Visits stage inner) ∧ inner.IsExecution := by
        rw [exact']
        constructor
        · rintro ⟨stage, member, visits, execution⟩
          exact ⟨⟨stage, (entered stage).mpr member, visits⟩, execution⟩
        · rintro ⟨⟨stage, enters, visits⟩, execution⟩
          exact ⟨stage, (entered stage).mp enters, visits, execution⟩
      rcases begun_numbered activity with ⟨execution, begun⟩ | ⟨other, begun⟩
      · refine ⟨[activity] ++ others, ?_, ?_, numbered_append begun numbered⟩
        · intro inner
          have itself : inner = activity ↔ inner = activity ∧ inner.IsExecution :=
            ⟨fun same => ⟨same, same ▸ execution⟩, And.left⟩
          rw [List.mem_append, List.mem_singleton, inside, visits_first, or_and_right, ← itself]
        · refine List.pairwise_cons.mpr ⟨?_, ordered⟩
          intro inner member
          obtain ⟨⟨stage, enters, visits⟩, _⟩ := (inside inner).mp member
          exact .inside enters visits
      · refine ⟨[] ++ others, ?_, ordered, numbered_append begun numbered⟩
        intro inner
        have itself : ¬ (inner = activity ∧ inner.IsExecution) :=
          fun execution => other (execution.1 ▸ execution.2)
        rw [List.nil_append, inside, visits_first, or_and_right, or_iff_right itself]

/-- The statements executed in an activity that ends are counted and traced in their order. -/
theorem executions_numbered {activity : Activity} {after : Machine}
    (ends : activity.machine? = some after) :
    ∃ executed, Executions activity executed ∧ executed.Pairwise Before ∧
      Numbered activity.machine executed after := by
  obtain ⟨executed, exact', ordered, numbered⟩ := activity_counted activity after ends
  refine ⟨executed, ⟨exact', ?_⟩, ordered, numbered⟩
  apply List.Nodup.of_map (fun inner => inner.machine.steps)
  rw [numbered.numbers]
  exact List.nodup_range'

/-- An activity that ends has taken one step for each statement that was executed in it. -/
theorem executions_counted {activity : Activity} {after : Machine}
    (ends : activity.machine? = some after) :
    ∃ executed, Executions activity executed ∧
      after.steps = activity.machine.steps + executed.length := by
  obtain ⟨executed, executions, _, numbered⟩ := executions_numbered ends
  exact ⟨executed, executions, numbered.steps⟩

theorem executions_length {activity : Activity} {executed others : List Activity}
    (executions : Executions activity executed) (executions' : Executions activity others) :
    executed.length = others.length := by
  apply List.Perm.length_eq
  rw [List.perm_ext_iff_of_nodup executions.distinct executions'.distinct]
  intro inner
  rw [executions.exact, executions'.exact]

namespace Session

/-- A session that has come of a new one, with the number of statements that were executed by the
calls in between. -/
inductive Accounted : Session → Nat → Prop where
  | bare (verbosity : Nat) : Accounted (bare verbosity) 0
  | define {session : Session} {applied : Nat} (name : String) (native : Native)
      (before : Accounted session applied) : Accounted (session.define name native) applied
  | execute {session next : Session} {applied fuel : Nat} {source : String}
      {answer : Except RunError Value} (before : Accounted session applied)
      (ran : session.execute fuel source = some (answer, next)) : Accounted next applied
  | run {session next : Session} {applied fuel : Nat} {program : Block}
      {answer : Except Failure Value} (before : Accounted session applied)
      (ran : session.run fuel program = some (answer, next)) : Accounted next applied
  | apply {session next : Session} {applied fuel : Nat} {function : Value}
      {arguments : List Value} {answer : Except Failure Value} {executed : List Activity}
      (before : Accounted session applied)
      (ran : session.apply fuel function arguments = some (answer, next))
      (executions : Executions ⟨fuel, session.machine, [], .apply function arguments⟩ executed) :
      Accounted next (applied + executed.length)

/-- The next session has counted what was executed in between. -/
structure Counts (session next : Session) : Prop where
  steps : session.machine.steps ≤ next.machine.steps
  counted : next.counted =
    some (session.counted.getD 0 + (next.machine.steps - session.machine.steps))

/-- No function is active between the steps of a session, and in the middle of one the depth is
the number of those that are. What is executed by runs is counted, whatever these end with, and what
is executed by calls is not. -/
structure InBalance (session : Session) : Prop where
  depth : session.machine.depth = 0
  accounted : ∃ applied, session.Accounted applied
  steps : ∀ applied, session.Accounted applied →
    session.machine.steps = session.counted.getD 0 + applied
  run : ∀ fuel program answer next, session.run fuel program = some (answer, next) →
    session.Counts next
  execute : ∀ fuel source answer next, session.execute fuel source = some (answer, next) →
    (∀ program, parse source = .ok program → session.Counts next) ∧
      ∀ error, parse source = .error error → next = session
  apply : ∀ fuel function arguments answer next,
    session.apply fuel function arguments = some (answer, next) →
      session.machine.steps ≤ next.machine.steps ∧ next.counted = session.counted
  define : ∀ name native, (session.define name native).machine.steps = session.machine.steps ∧
    (session.define name native).counted = session.counted
  visited : ∀ first activity, session.Busy first → Visits first activity →
    ∃ active, Running first active activity
  running : ∀ first active activity, session.Busy first → Running first active activity →
    activity.machine.depth = active.length ∧
      ∀ after, activity.machine? = some after → after.depth = active.length
  statements : ∀ first after, session.Busy first → first.machine? = some after →
    ∃ executed, Executions first executed ∧
      after.steps = session.machine.steps + executed.length

end Session

section

variable {session next : Session} {fuel : Nat}

theorem busy_machine {activity : Activity} (busy : session.Busy activity) :
    activity.machine = session.machine := by
  cases busy <;> rfl

theorem run_counts {program : Block} {answer : Except Failure Value}
    (ran : session.run fuel program = some (answer, next)) :
    session.machine.Level next.machine ∧ session.Counts next := by
  have level := (run_sound (level_sound _) (.inl True.intro) ran).1.2.moves
  refine ⟨level, level.steps, ?_⟩
  rw [(run_cases ran).1]
  rfl

theorem execute_parsed {source : String} {answer : Except RunError Value} {program : Block}
    (parsed : parse source = .ok program)
    (ran : session.execute fuel source = some (answer, next)) :
    ∃ answer, session.run fuel program = some (answer, next) := by
  rcases execute_cases ran with ⟨_, refused, _⟩ | ⟨_, inner, parsed', finished, _⟩
  · cases parsed.symm.trans refused
  · cases parsed.symm.trans parsed'
    exact ⟨inner, finished⟩

theorem execute_refused {source : String} {answer : Except RunError Value} {error : ParseError}
    (refused : parse source = .error error)
    (ran : session.execute fuel source = some (answer, next)) : next = session := by
  rcases execute_cases ran with ⟨_, _, _, same⟩ | ⟨_, _, parsed, _⟩
  · exact same
  · cases refused.symm.trans parsed

/-- A call ends on the machine of its activity, and counts nothing. -/
theorem apply_ends {function : Value} {arguments : List Value} {answer : Except Failure Value}
    (ran : session.apply fuel function arguments = some (answer, next)) :
    (⟨fuel, session.machine, [], .apply function arguments⟩ : Activity).machine? =
      some next.machine ∧ next.counted = session.counted := by
  change (Evaluation.apply fuel function arguments session.machine).machine? = _ ∧ _
  obtain ⟨same, ended⟩ := apply_cases ran
  refine ⟨?_, by rw [same]⟩
  rcases ended with ⟨value, _, ended⟩ | ⟨failure, _, ended⟩ <;> exact congrArg _ ended

theorem counts_steps {applied : Nat} (counts : session.Counts next)
    (steps : session.machine.steps = session.counted.getD 0 + applied) :
    next.machine.steps = next.counted.getD 0 + applied := by
  have grown := counts.steps
  rw [counts.counted, Option.getD_some]
  omega

theorem reached_depth (reached : session.Reached) : session.machine.depth = 0 := by
  induction reached with
  | bare => rfl
  | define _ _ _ ih => exact ih
  | @execute session next fuel source answer _ ran ih =>
      cases parsed : parse source with
      | ok program =>
          obtain ⟨answer, ran⟩ := execute_parsed parsed ran
          exact (run_counts ran).1.depth.trans ih
      | error error =>
          rw [execute_refused parsed ran]
          exact ih
  | run _ ran ih => exact (run_counts ran).1.depth.trans ih
  | apply _ ran ih => exact (ends_level (apply_ends ran).1).depth.trans ih

theorem reached_accounted (reached : session.Reached) :
    ∃ applied, session.Accounted applied := by
  induction reached with
  | bare verbosity => exact ⟨0, .bare verbosity⟩
  | define name native _ ih => exact ih.imp fun _ before => .define name native before
  | execute _ ran ih => exact ih.imp fun _ before => .execute before ran
  | run _ ran ih => exact ih.imp fun _ before => .run before ran
  | apply _ ran ih =>
      obtain ⟨applied, before⟩ := ih
      obtain ⟨executed, executions, _⟩ := executions_counted (apply_ends ran).1
      exact ⟨_, .apply before ran executions⟩

theorem accounted_steps {applied : Nat} (accounted : session.Accounted applied) :
    session.machine.steps = session.counted.getD 0 + applied := by
  induction accounted with
  | bare => rfl
  | define _ _ _ ih => exact ih
  | @execute session next applied fuel source answer _ ran ih =>
      cases parsed : parse source with
      | ok program =>
          obtain ⟨answer, ran⟩ := execute_parsed parsed ran
          exact counts_steps (run_counts ran).2 ih
      | error error =>
          rw [execute_refused parsed ran]
          exact ih
  | run _ ran ih => exact counts_steps (run_counts ran).2 ih
  | apply _ ran executions ih =>
      obtain ⟨ends, counted⟩ := apply_ends ran
      obtain ⟨others, executions', steps⟩ := executions_counted ends
      rw [steps, counted, executions_length executions executions', ← Nat.add_assoc, ← ih]

end

/-- Every session is in balance, whatever its steps have ended with. -/
theorem sessions_balance {session : Session} (reached : session.Reached) : session.InBalance where
  depth := reached_depth reached
  accounted := reached_accounted reached
  steps _ accounted := accounted_steps accounted
  run _ _ _ _ ran := (run_counts ran).2
  execute _ _ _ _ ran := by
    constructor
    · intro program parsed
      obtain ⟨_, ran⟩ := execute_parsed parsed ran
      exact (run_counts ran).2
    · exact fun error refused => execute_refused refused ran
  apply _ _ _ _ _ ran := ⟨(ends_level (apply_ends ran).1).steps, (apply_ends ran).2⟩
  define _ _ := ⟨rfl, rfl⟩
  visited _ _ _ visits := visits_running visits
  running first active activity busy running := by
    have depth : activity.machine.depth = active.length := by
      rw [running_depth running, busy_machine busy, reached_depth reached, Nat.zero_add]
    exact ⟨depth, fun after ends => (ends_level ends).depth.trans depth⟩
  statements first after busy ends := by
    obtain ⟨executed, executions, steps⟩ := executions_counted ends
    rw [busy_machine busy] at steps
    exact ⟨executed, executions, steps⟩

/-- A failure inside of a function is caught by a native while the program goes on, and is not
caught when the function is called from outside. -/
theorem sessions_balance_caught :
    let session := (Session.bare 0).define "try" .attempt
    let program : Block := [.function "f" [] [.evaluate (.call .nil [])],
      .evaluate (.call (.name "try") [.name "f"])]
    ∃ ran answer next failure, session.run 3 program = some (.ok answer, ran) ∧
      ran.apply 1 (.function 1) [] = some (.error failure, next) ∧
      ran.machine.steps = 3 ∧ next.counted = some 3 ∧ next.machine.steps = 4 ∧
      next.machine.depth = 0 ∧ next.Accounted 1 := by
  intro session program
  have before : session.Reached := .define _ _ (.bare 0)
  refine ⟨_, _, _, _, rfl, rfl, rfl, rfl, rfl, ?_⟩
  have ran : session.run 3 program = some (_, _) := rfl
  have balance := sessions_balance (.apply (.run before ran)
    (show Session.apply 1 (.function 1) [] _ = some (_, _) from rfl))
  obtain ⟨applied, accounted⟩ := balance.accounted
  have steps : 4 = 3 + applied := balance.steps applied accounted
  obtain rfl : applied = 1 := by omega
  exact ⟨balance.depth, accounted⟩

end LuaCore
