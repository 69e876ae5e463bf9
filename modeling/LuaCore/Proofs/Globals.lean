import LuaCore.Proofs.Binding

/-!
What a run does to the global scope and to the functions. The global scope gets names at its end,
those of the declarations and assignments that are executed, and the functions stay with the scopes
that they have captured.
-/

namespace LuaCore

open Evaluation

/-- The later machine has further globals at the end, under certain names, and further functions. -/
structure Gains (names : String → Prop) (machine next : Machine) : Prop where
  globals : machine.globals.Extends names next.globals
  functions : ∀ (id : Nat) (callable : Callable), machine.functions[id]? = some callable →
    next.functions[id]? = some callable

/-- The names are those that are bound globally in the course of an activity, or more. -/
def Covers (names : String → Prop) (activity : Activity) : Prop :=
  ∀ inner, Visits activity inner → ∀ name, inner.task.global? = some name → names name

/-- The machine gains nothing but the names by the end of a computation, if it does end. -/
def Brings {α : Type} (names : String → Prop) (machine : Machine) (outcome : Outcome α) : Prop :=
  ∀ next, outcome.machine? = some next → Gains names machine next

/-- Calls bring no names but those that they cover. -/
def CallsBring (names : String → Prop) (fuel : Nat) : Prop :=
  ∀ machine scopes function arguments,
    Covers names ⟨fuel, machine, scopes, .apply function arguments⟩ →
      Brings names machine (apply fuel function arguments machine)

variable {names : String → Prop} {fuel : Nat} {machine next after : Machine} {scope : Scope}

theorem gains_same (globals : machine.globals = next.globals)
    (functions : machine.functions = next.functions) : Gains names machine next := by
  refine ⟨?_, ?_⟩
  · rw [globals]
    exact extends_refl _
  · intro id callable found
    rw [← functions]
    exact found

theorem gains_trans {middle : Machine} (first : Gains names machine middle)
    (second : Gains names middle next) : Gains names machine next := by
  refine ⟨extends_trans first.globals second.globals, ?_⟩
  intro id callable found
  exact second.functions id callable (first.functions id callable found)

theorem gains_newFunction (callable : Callable) :
    Gains names machine (machine.newFunction callable).2 := by
  refine ⟨extends_refl _, ?_⟩
  intro id other found
  obtain ⟨present, _⟩ := Array.getElem?_eq_some_iff.mp found
  change (machine.functions.push callable)[id]? = _
  rw [Array.getElem?_push, if_neg (Nat.ne_of_lt present)]
  exact found

theorem gains_putGlobal {name : String} (value : Value) (named : names name) :
    Gains names machine (machine.putGlobal name value) :=
  ⟨put_extends _ _ _ named, fun _ _ found => found⟩

theorem covers_enters {first second : Activity} (covers : Covers names first)
    (enters : Enters first second) : Covers names second :=
  fun inner visits => covers inner (enters_visits enters visits)

theorem covers_part {outer : List Scope} {task inner : Task}
    (covers : Covers names ⟨fuel, machine, scope :: outer, task⟩)
    (part : Part fuel scope machine task after inner) :
    Covers names ⟨fuel, after, scope :: outer, inner⟩ :=
  covers_enters covers (.part part)

/-! Computations. -/

section

variable {α β : Type}

theorem brings_done {value : α} (gains : Gains names machine next) :
    Brings names machine (.done value next) := by
  rintro _ ⟨⟩
  exact gains

theorem brings_fail (failure : Failure) :
    Brings names machine (.failed failure machine : Outcome α) := by
  rintro _ ⟨⟩
  exact gains_same rfl rfl

theorem brings_pure (value : α) : Brings names machine (.done value machine) :=
  brings_done (gains_same rfl rfl)

theorem brings_trans {outcome : Outcome α} (gains : Gains names machine next)
    (brings : Brings names next outcome) : Brings names machine outcome :=
  fun last ended => gains_trans gains (brings last ended)

theorem brings_bind {first : Eval α} {rest : α → Eval β}
    (brings : Brings names machine (first machine))
    (goes : ∀ value after, first machine = .done value after →
      Brings names after (rest value after)) :
    Brings names machine (Eval.bind first rest machine) := by
  unfold Eval.bind
  cases ended : first machine with
  | done value after =>
      rw [ended] at brings
      exact brings_trans (brings after rfl) (goes value after ended)
  | failed failure after =>
      rw [ended] at brings
      rintro _ ⟨⟩
      exact brings after rfl
  | exhausted => rintro _ ⟨⟩

theorem brings_step {first : Eval α} {rest : α → Eval β} {value : α}
    (step : first machine = .done value next) (gains : Gains names machine next)
    (goes : Brings names next (rest value next)) :
    Brings names machine (Eval.bind first rest machine) := by
  unfold Eval.bind
  rw [step]
  exact brings_trans gains goes

theorem brings_read {view : Machine → α} {rest : α → Eval β}
    (goes : Brings names machine (rest (view machine) machine)) :
    Brings names machine (Eval.bind (Eval.read view) rest machine) :=
  goes

variable {target asked : Eval Value}

theorem table_brings {rest : Nat → Eval β} (evaluates : Brings names machine (target machine))
    (goes : ∀ id after, target machine = .done (.table id) after →
      Brings names after (rest id after)) :
    Brings names machine
      (Eval.bind target (fun value => Eval.bind (requireTable value) rest) machine) := by
  apply brings_bind evaluates
  intro value after given
  cases value with
  | table id => exact goes id after given
  | _ => exact brings_fail _

theorem key_brings {rest : Key → Eval β} (evaluates : Brings names machine (asked machine))
    (goes : ∀ value key after, asked machine = .done value after → value.toKey? = some key →
      Brings names after (rest key after)) :
    Brings names machine
      (Eval.bind asked (fun value => Eval.bind (requireKey value) rest) machine) := by
  apply brings_bind evaluates
  intro value after given
  unfold requireKey
  cases stands : value.toKey? with
  | some key => exact goes value key after given stands
  | none => exact brings_fail _

theorem number_brings {place : Misuse} {rest : Float → Eval β}
    (evaluates : Brings names machine (target machine))
    (goes : ∀ x after, target machine = .done (.number x) after →
      Brings names after (rest x after)) :
    Brings names machine
      (Eval.bind target (fun value => Eval.bind (requireNumber place value) rest) machine) := by
  apply brings_bind evaluates
  intro value after given
  cases value with
  | number x => exact goes x after given
  | _ => exact brings_fail _

/-- What is written to a table is no business of globals and functions. -/
theorem write_brings {id : Nat} {key : Key} {value : Value} {rest : Eval β}
    (goes : Brings names (machine.setTable id key value) (rest (machine.setTable id key value))) :
    Brings names machine (Eval.bind (writeTable id key value) (fun _ => rest) machine) :=
  brings_step rfl (gains_same rfl rfl) goes

theorem operate_brings (operation : Operation) (lhs rhs : Value) :
    Brings names machine (operate operation lhs rhs machine) := by
  unfold operate
  cases binary operation lhs rhs with
  | ok value => exact brings_pure value
  | error operand => exact brings_fail _

theorem assignName_brings {name : String} {value : Value} (named : names name) :
    Brings names machine (assignName scope name value machine) := by
  unfold assignName
  by_cases bound : scope.has name
  · rw [if_pos bound]
    exact brings_done (gains_same rfl rfl)
  · rw [if_neg bound]
    exact brings_done (gains_putGlobal value named)

theorem begin_brings {summary : String} {rest : Unit → Eval β}
    (goes : Brings names (machine.begin summary) (rest () (machine.begin summary))) :
    Brings names machine
      (Eval.bind (Eval.modify fun machine => machine.begin summary) rest machine) :=
  have quiet := machine.begin_quiet summary
  brings_step rfl (gains_same quiet.globals quiet.functions) goes

theorem branch_brings {condition : Eval Value} {body behind : Eval Flow}
    (asks : Brings names machine (condition machine))
    (runs : ∀ value after, condition machine = .done value after → value.isTruthy →
      Brings names after (body after))
    (goes : ∀ value after, condition machine = .done value after → ¬ value.isTruthy →
      Brings names after (behind after)) :
    Brings names machine
      (Eval.bind condition (fun value => if value.isTruthy then body else behind) machine) := by
  apply brings_bind asks
  intro value after given
  by_cases truthy : value.isTruthy
  · rw [if_pos truthy]
    exact runs value after given truthy
  · rw [if_neg truthy]
    exact goes value after given truthy

theorem loop_brings {body : Eval Flow} (scope : Scope)
    (runs : Brings names machine (body machine)) :
    Brings names machine
      (Eval.bind body (fun flow => match flow with
        | .next _ => Eval.pure (Flow.next scope)
        | .result value => Eval.pure (.result value)) machine) := by
  apply brings_bind runs
  intro flow after _
  cases flow with
  | next | result => exact brings_pure _

end

theorem recover_brings {body : Eval Value} {handle : Failure → Value}
    (runs : Brings names machine (body machine)) :
    Brings names machine (Eval.recover body handle machine) := by
  unfold Eval.recover
  cases ended : body machine with
  | done value after =>
      rw [ended] at runs
      exact runs
  | failed failure after =>
      rw [ended] at runs
      have gains := runs after rfl
      by_cases misuse : failure.isMisuse
      · simp only [misuse, if_true]
        exact brings_done gains
      · simp only [misuse]
        exact runs
  | exhausted => rintro _ ⟨⟩

theorem finish_brings {body : Eval Flow} {failure : Failure → Failure} {leave : Machine → Machine}
    (runs : Brings names machine (body machine))
    (left : ∀ next, (leave next).globals = next.globals ∧
      (leave next).functions = next.functions) :
    Brings names machine (Eval.finish body failure leave machine) := by
  have leaves (next : Machine) (gains : Gains names machine next) :
      Gains names machine (leave next) :=
    gains_trans gains (gains_same (left next).1.symm (left next).2.symm)
  unfold Eval.finish
  cases ended : body machine with
  | done flow after =>
      rw [ended] at runs
      exact brings_done (leaves after (runs after rfl))
  | failed reason after =>
      rw [ended] at runs
      rintro _ ⟨⟩
      exact leaves after (runs after rfl)
  | exhausted => rintro _ ⟨⟩

/-- The rounds of a loop bring what their blocks bring. -/
theorem rounds_brings {body : Block} {name : String} {limit step : Float} {outer : List Scope}
    (runs : ∀ {machine : Machine} {scope : Scope},
      Covers names ⟨fuel, machine, scope :: outer, .executeBlock body⟩ →
        Brings names machine (executeBlock (apply fuel) fuel scope body machine))
    {bound : Nat} {counter : Float} {machine : Machine} {scope : Scope}
    (covers : Covers names
      ⟨fuel, machine, scope :: outer, .rounds body name limit step bound counter⟩) :
    Brings names machine
      (rounds (fun scope => executeBlock (apply fuel) fuel scope body) name limit step bound
        counter scope machine) := by
  induction bound generalizing counter machine scope with
  | zero => rintro _ ⟨⟩
  | succ bound ih =>
      rw [rounds]
      by_cases inside : counter ≤ limit
      · rw [if_pos inside]
        refine brings_step rfl (gains_same rfl rfl) (brings_bind (runs ?_) ?_)
        · exact covers_enters covers (.round inside)
        · intro flow after executed
          cases flow with
          | next later => exact ih (covers_enters covers (.nextRound inside executed))
          | result value => exact brings_pure _
      · rw [if_neg inside]
        exact brings_pure _

/-! Trees. -/

mutual

theorem evaluate_brings (calls : CallsBring names fuel) {expression : Expression}
    {machine : Machine} {scope : Scope} {outer : List Scope}
    (covers : Covers names ⟨fuel, machine, scope :: outer, .evaluate expression⟩) :
    Brings names machine (evaluate (apply fuel) fuel scope expression machine) := by
  cases expression with
  | number | string | boolean | nil => exact brings_pure _
  | name name => exact brings_pure _
  | table fields =>
      rw [evaluate]
      refine brings_step rfl (gains_same rfl rfl) (brings_bind ?_ ?_)
      · exact fillTable_brings calls (covers_part covers .fields)
      · intro _ after _
        exact brings_pure _
  | binary lhs operation rhs =>
      apply brings_bind (evaluate_brings calls (covers_part covers .lhs))
      intro left between gives
      apply brings_bind (evaluate_brings calls (covers_part covers (.rhs gives)))
      intro right after _
      exact operate_brings operation left right
  | call callee arguments =>
      apply brings_bind (evaluate_brings calls (covers_part covers .callee))
      intro value called gives
      cases value with
      | function id =>
          apply brings_bind (evaluateAll_brings calls (covers_part covers (.arguments gives)))
          intro values after given
          exact calls after _ _ values (covers_enters covers (.call gives given))
      | _ => exact brings_fail _
  | dot target name =>
      apply table_brings (evaluate_brings calls (covers_part covers .dotted))
      intro id after _
      exact brings_pure _
  | index target key =>
      apply table_brings (evaluate_brings calls (covers_part covers .indexed))
      intro id between gives
      apply key_brings (evaluate_brings calls (covers_part covers (.key gives)))
      intro value key after _ _
      exact brings_pure _
  | function parameters body => exact brings_done (gains_newFunction _)
  | strayStatement | strayField => exact brings_fail _

theorem evaluateAll_brings (calls : CallsBring names fuel) {expressions : List Expression}
    {machine : Machine} {scope : Scope} {outer : List Scope}
    (covers : Covers names ⟨fuel, machine, scope :: outer, .evaluateAll expressions⟩) :
    Brings names machine (evaluateAll (apply fuel) fuel scope expressions machine) := by
  cases expressions with
  | nil => exact brings_pure _
  | cons expression rest =>
      apply brings_bind (evaluate_brings calls (covers_part covers .first))
      intro value between gives
      apply brings_bind (evaluateAll_brings calls (covers_part covers (.others gives)))
      intro values after _
      exact brings_pure _

theorem fillTable_brings (calls : CallsBring names fuel) {fields : List Field}
    {id position : Nat} {machine : Machine} {scope : Scope} {outer : List Scope}
    (covers : Covers names ⟨fuel, machine, scope :: outer, .fill id position fields⟩) :
    Brings names machine (fillTable (apply fuel) fuel scope id position fields machine) := by
  cases fields with
  | nil => exact brings_pure _
  | cons field rest =>
      cases field with
      | positional value =>
          apply brings_bind (evaluate_brings calls (covers_part covers .positional))
          intro given after gives
          exact write_brings (fillTable_brings calls (covers_part covers (.afterPositional gives)))
      | named name value =>
          apply brings_bind (evaluate_brings calls (covers_part covers .named))
          intro given after gives
          exact write_brings (fillTable_brings calls (covers_part covers (.afterNamed gives)))
      | keyed key value =>
          apply key_brings (evaluate_brings calls (covers_part covers .fieldKey))
          intro asked stored between gives stands
          apply brings_bind (evaluate_brings calls (covers_part covers (.keyed gives stands)))
          intro given after gives'
          exact write_brings
            (fillTable_brings calls (covers_part covers (.afterKeyed gives stands gives')))

theorem executeBlock_brings (calls : CallsBring names fuel) {statements : List Statement}
    {machine : Machine} {scope : Scope} {outer : List Scope}
    (covers : Covers names ⟨fuel, machine, scope :: outer, .executeBlock statements⟩) :
    Brings names machine (executeBlock (apply fuel) fuel scope statements machine) := by
  cases statements with
  | nil => exact brings_pure _
  | cons statement rest =>
      apply brings_bind (execute_brings calls (covers_part covers .statement))
      intro flow after executed
      cases flow with
      | next later =>
          exact executeBlock_brings calls (covers_enters covers (.following executed))
      | result value => exact brings_pure _

theorem executeBranches_brings (calls : CallsBring names fuel) {branches : List Branch}
    {otherwise : Option Block} {machine : Machine} {scope : Scope} {outer : List Scope}
    (last : ∀ {machine},
      Covers names ⟨fuel, machine, scope :: outer, .executeBranches otherwise []⟩ →
        Brings names machine (executeOtherwise (apply fuel) fuel scope otherwise machine))
    (covers : Covers names
      ⟨fuel, machine, scope :: outer, .executeBranches otherwise branches⟩) :
    Brings names machine (executeBranches (apply fuel) fuel scope
      (executeOtherwise (apply fuel) fuel scope otherwise) branches machine) := by
  cases branches with
  | nil => exact last covers
  | cons branch rest =>
      obtain ⟨condition, body⟩ := branch
      apply branch_brings (evaluate_brings calls (covers_part covers .nextCondition))
      · intro value after gives truthy
        exact executeBlock_brings calls (covers_part covers (.nextChosen gives truthy))
      · intro value after gives falsy
        exact executeBranches_brings calls last (covers_part covers (.nextPassed gives falsy))

theorem execute_brings (calls : CallsBring names fuel) {statement : Statement}
    {machine : Machine} {scope : Scope} {outer : List Scope}
    (covers : Covers names ⟨fuel, machine, scope :: outer, .execute statement⟩) :
    Brings names machine (execute (apply fuel) fuel scope statement machine) := by
  cases statement with
  | assign target value =>
      rw [execute]
      apply begin_brings
      apply brings_bind (evaluate_brings calls (covers_part covers .assigned))
      intro given between gives
      cases target with
      | name name =>
          apply brings_bind (assignName_brings (covers _ .refl name rfl))
          intro _ after _
          exact brings_pure _
      | dot target name =>
          apply table_brings (evaluate_brings calls (covers_part covers (.dotTarget gives)))
          intro id after _
          exact write_brings (brings_pure _)
      | index target key =>
          apply table_brings (evaluate_brings calls (covers_part covers (.indexTarget gives)))
          intro id middle gives'
          apply key_brings (evaluate_brings calls (covers_part covers (.indexKey gives gives')))
          intro asked stored after _ _
          exact write_brings (brings_pure _)
      | _ => exact brings_fail _
  | declare name value =>
      rw [execute]
      apply begin_brings
      apply brings_bind (evaluate_brings calls (covers_part covers .declared))
      intro given after _
      exact brings_step rfl (gains_same rfl rfl) (brings_pure _)
  | evaluate expression =>
      rw [execute]
      apply begin_brings
      apply brings_bind (evaluate_brings calls (covers_part covers .evaluated))
      intro given after _
      exact brings_pure _
  | returns value =>
      rw [execute]
      apply begin_brings
      apply brings_bind (evaluate_brings calls (covers_part covers .returned))
      intro given after _
      exact brings_pure _
  | function name parameters body =>
      rw [execute]
      apply begin_brings
      refine brings_step rfl (gains_newFunction _) (brings_step rfl ?_ (brings_pure _))
      exact gains_putGlobal _ (covers _ .refl name rfl)
  | choose first others otherwise =>
      obtain ⟨condition, body⟩ := first
      have asks := evaluate_brings calls (covers_part covers .condition)
      cases otherwise with
      | none =>
          rw [execute]
          apply begin_brings
          apply branch_brings asks
          · intro value after gives truthy
            exact executeBlock_brings calls (covers_part covers (.chosen gives truthy))
          · intro value after gives falsy
            have behind := covers_part covers (.passed gives falsy)
            exact executeBranches_brings calls (fun _ => brings_pure _) behind
      | some otherwise =>
          rw [execute]
          apply begin_brings
          apply branch_brings asks
          · intro value after gives truthy
            exact executeBlock_brings calls (covers_part covers (.chosen gives truthy))
          · intro value after gives falsy
            have behind := covers_part covers (.passed gives falsy)
            refine executeBranches_brings calls ?_ behind
            exact fun covers => executeBlock_brings calls (covers_part covers .otherwise)
  | loop counter start limit step body =>
      rw [execute]
      apply begin_brings
      apply number_brings (evaluate_brings calls (covers_part covers .start))
      intro first started gives
      apply number_brings (evaluate_brings calls (covers_part covers (.limit gives)))
      intro last limited gives'
      -- The rounds run in a copy of the scope, which is left with them.
      have goes {width : Float} {after : Machine} (counts : Counts fuel scope
          (machine.begin (Statement.loop counter start limit step body).summary) start limit step
          first last width after) :=
        loop_brings scope (rounds_brings (executeBlock_brings calls)
          (covers_enters covers (.loop counts)))
      cases step with
      | none => exact goes (.byOne gives gives')
      | some step =>
          apply number_brings (evaluate_brings calls (covers_part covers (.step gives gives')))
          intro width after gives''
          exact goes (.byStep gives gives' gives'')
  | strayExpression | strayField =>
      rw [execute]
      exact begin_brings (brings_fail _)

end

/-! Calls. -/

theorem native_brings {scopes : List Scope} {id : Nat} {name : String} {native : Native}
    {arguments : List Value} (calls : CallsBring names fuel)
    (found : machine.callable id = .native name native)
    (covers : Covers names ⟨fuel + 1, machine, scopes, .apply (.function id) arguments⟩) :
    Brings names machine (native.run (apply fuel) arguments machine) := by
  cases native with
  | print =>
      have quiet := Machine.printedLine_quiet arguments machine
      exact brings_done (gains_same quiet.globals quiet.functions)
  | type => exact brings_pure _
  | tostring =>
      have quiet := Machine.plain_quiet (Native.firstArgument arguments) machine
      exact brings_done (gains_same quiet.globals quiet.functions)
  | record =>
      have quiet := Machine.recordAll_quiet arguments machine
      exact brings_done (gains_same quiet.globals quiet.functions)
  | fail => exact brings_fail _
  | twice =>
      rcases arguments with _ | ⟨function, _ | ⟨value, rest⟩⟩
      · exact brings_fail _
      · exact brings_fail _
      · apply brings_bind (calls machine scopes function [value]
          (covers_enters covers (.once found)))
        intro result after applied
        exact calls after scopes function [result] (covers_enters covers (.twice found applied))
  | setKey =>
      simp only [Native.run]
      split
      · next id key value _ =>
          cases key.toKey? with
          | some key => exact brings_step rfl (gains_same rfl rfl) (brings_pure _)
          | none => exact brings_fail _
      · exact brings_fail _
  | sum =>
      unfold Native.run
      cases Native.total? 0 arguments with
      | some result => exact brings_pure _
      | none => exact brings_fail _
  | attempt =>
      cases arguments with
      | nil => exact brings_fail _
      | cons function rest =>
          exact recover_brings (calls machine scopes function rest
            (covers_enters covers (.attempt found)))
  | idle => exact brings_pure _

theorem apply_brings (names : String → Prop) (fuel : Nat) : CallsBring names fuel := by
  induction fuel with
  | zero =>
      intro machine scopes function arguments _
      rintro _ ⟨⟩
  | succ fuel ih =>
      intro machine scopes function arguments covers
      cases function with
      | function id =>
          rw [apply]
          apply brings_read
          cases found : machine.callable id with
          | native name native => exact native_brings ih found covers
          | closure closure =>
              have inside := covers_enters covers (.activation found rfl)
              have runs := executeBlock_brings ih inside
              refine brings_step rfl (gains_same rfl rfl) (brings_bind ?_ ?_)
              · exact finish_brings runs fun next => ⟨rfl, rfl⟩
              · intro flow after _
                exact brings_pure _
      | _ => exact brings_fail _

/-- An activity brings no names but those that it covers. -/
theorem ends_gains {activity : Activity} (covers : Covers names activity)
    (ends : activity.machine? = some after) : Gains names activity.machine after := by
  obtain ⟨fuel, machine, scopes, task⟩ := activity
  have calls : CallsBring names fuel := apply_brings names fuel
  cases scopes with
  | nil =>
      cases task with
      | apply function arguments => exact calls machine [] function arguments covers after ends
      | _ => cases ends
  | cons scope outer =>
      cases task with
      | evaluate => exact evaluate_brings calls covers after ends
      | evaluateAll => exact evaluateAll_brings calls covers after ends
      | fill => exact fillTable_brings calls covers after ends
      | execute => exact execute_brings calls covers after ends
      | executeBlock => exact executeBlock_brings calls covers after ends
      | executeBranches otherwise branches =>
          refine executeBranches_brings calls ?_ covers after ends
          intro last covers
          cases otherwise with
          | none => exact brings_pure _
          | some body => exact executeBlock_brings calls (covers_part covers .otherwise)
      | rounds => exact rounds_brings (executeBlock_brings calls) covers after ends
      | apply function arguments =>
          exact calls machine (scope :: outer) function arguments covers after ends

/-- Whatever goes on inside of an activity goes on in new scopes or in those that it started in. Of
these only the first one can have grown, at its end and by the locals of the statements that run in
it, so not at all by an expression or a call. A block that runs to its end leaves its scope so, too.
At the end of the activity all functions have the scopes that they had captured, and the global
scope has grown at its end by the names of the declarations and assignments that were executed. -/
theorem bindings_stable (activity : Activity) :
    (∀ inner, Visits activity inner → ∃ added base, inner.scopes = added ++ base ∧
      Grown (· ∈ activity.task.locals) activity.scopes base ∧
      (activity.task.locals = [] → base = activity.scopes)) ∧
    (∀ scope statements next after,
      executeBlock (apply activity.fuel) activity.fuel scope statements activity.machine =
        .done (.next next) after →
      scope.Extends (· ∈ Block.locals statements) next) ∧
    ∀ after, activity.machine? = some after →
      Gains (fun name => ∃ inner, Visits activity inner ∧ inner.task.global? = some name)
        activity.machine after := by
  refine ⟨?_, ?_, ?_⟩
  · intro inner visits
    obtain ⟨added, base, scopes, grown, _⟩ := visits_scopes visits
    refine ⟨added, base, scopes, grown, ?_⟩
    intro empty
    rw [empty] at grown
    exact grown_none grown
  · intro scope statements next after executed
    exact executeBlock_extends executed
  · intro after ends
    exact ends_gains (fun inner visits name bound => ⟨inner, visits, bound⟩) ends

/-- A local of a branch is bound in the scope around it, and the function declared and the name
assigned behind it are bound globally. -/
theorem bindings_stable_branch :
    let program : Block := [.choose (.mk (.boolean true) [.declare "x" .nil]) [] none,
      .function "f" ["x"] [], .assign (.name "y") (.name "x")]
    let activity : Activity := ⟨1, {}, [{}], .executeBlock program⟩
    ∃ next after, executeBlock (apply 1) 1 {} program {} = .done (.next next) after ∧
      next = ⟨[("x", 0)]⟩ ∧ after.globals = ⟨[("f", 1), ("y", 2)]⟩ ∧
      Scope.Extends (· ∈ ["x"]) {} next ∧
      Gains (fun name => ∃ inner, Visits activity inner ∧ inner.task.global? = some name) {}
        after := by
  intro program activity
  obtain ⟨_, leaves, gains⟩ := bindings_stable activity
  exact ⟨_, _, rfl, rfl, rfl, leaves {} program _ _ rfl, gains _ rfl⟩

end LuaCore
