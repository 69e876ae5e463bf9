import LuaCore.Proofs.Framing

/-!
What goes on inside of a run. An activity is something to do on a machine, in scopes; while it is
done, others are entered for its parts, each on the machine that the earlier parts have left. So
every moment of a run is the start of some activity in it.
-/

namespace LuaCore

open Evaluation

inductive Task where
  | evaluate (expression : Expression)
  | evaluateAll (expressions : List Expression)
  | fill (id position : Nat) (fields : List Field)
  | execute (statement : Statement)
  | executeBlock (statements : List Statement)
  | executeBranches (otherwise : Option Block) (branches : List Branch)
  | rounds (body : Block) (name : String) (limit step : Float) (bound : Nat) (counter : Float)
  | apply (function : Value) (arguments : List Value)

/-- Something to do. The first of the scopes is the one that it is done in, and behind it are those
of the loops and calls around it. -/
structure Activity where
  fuel : Nat
  machine : Machine
  scopes : List Scope
  task : Task

/-- The expression has the value, and leaves a machine. -/
abbrev Gives (fuel : Nat) (scope : Scope) (machine : Machine) (expression : Expression)
    (value : Value) (after : Machine) : Prop :=
  evaluate (apply fuel) fuel scope expression machine = .done value after

/-- The block behind all branches. -/
def executeOtherwise (call : Caller) (fuel : Nat) (scope : Scope) : Option Block → Eval Flow
  | none => Eval.pure (.next scope)
  | some body => executeBlock call fuel scope body

theorem execute_choose (call : Caller) (fuel : Nat) (scope : Scope) (condition : Expression)
    (body : Block) (others : List Branch) (otherwise : Option Block) :
    execute call fuel scope (.choose (.mk condition body) others otherwise) =
      Eval.bind (Eval.modify fun machine =>
        machine.begin (Statement.choose (.mk condition body) others otherwise).summary) fun _ =>
          Eval.bind (evaluate call fuel scope condition) fun value =>
            if value.isTruthy then executeBlock call fuel scope body
            else executeBranches call fuel scope (executeOtherwise call fuel scope otherwise)
              others := by
  cases otherwise <;> (rw [execute]; rfl)

/-- The parts of a task that are done in the same scope: a task that starts on the first machine
comes to the part on the second one. -/
inductive Part (fuel : Nat) (scope : Scope) : Machine → Task → Machine → Task → Prop where
  | fields {machine : Machine} {fields : List Field} :
      Part fuel scope machine (.evaluate (.table fields)) machine.newTable.2
        (.fill machine.newTable.1 1 fields)
  | lhs {machine : Machine} {lhs rhs : Expression} {operation : Operation} :
      Part fuel scope machine (.evaluate (.binary lhs operation rhs)) machine (.evaluate lhs)
  | rhs {machine after : Machine} {lhs rhs : Expression} {operation : Operation} {left : Value}
      (gives : Gives fuel scope machine lhs left after) :
      Part fuel scope machine (.evaluate (.binary lhs operation rhs)) after (.evaluate rhs)
  | callee {machine : Machine} {callee : Expression} {arguments : List Expression} :
      Part fuel scope machine (.evaluate (.call callee arguments)) machine (.evaluate callee)
  | arguments {machine after : Machine} {callee : Expression} {arguments : List Expression}
      {id : Nat} (gives : Gives fuel scope machine callee (.function id) after) :
      Part fuel scope machine (.evaluate (.call callee arguments)) after (.evaluateAll arguments)
  | dotted {machine : Machine} {target : Expression} {name : String} :
      Part fuel scope machine (.evaluate (.dot target name)) machine (.evaluate target)
  | indexed {machine : Machine} {target key : Expression} :
      Part fuel scope machine (.evaluate (.index target key)) machine (.evaluate target)
  | key {machine after : Machine} {target key : Expression} {id : Nat}
      (gives : Gives fuel scope machine target (.table id) after) :
      Part fuel scope machine (.evaluate (.index target key)) after (.evaluate key)
  | first {machine : Machine} {first : Expression} {others : List Expression} :
      Part fuel scope machine (.evaluateAll (first :: others)) machine (.evaluate first)
  | others {machine after : Machine} {first : Expression} {others : List Expression}
      {value : Value} (gives : Gives fuel scope machine first value after) :
      Part fuel scope machine (.evaluateAll (first :: others)) after (.evaluateAll others)
  | positional {machine : Machine} {value : Expression} {id position : Nat}
      {others : List Field} :
      Part fuel scope machine (.fill id position (.positional value :: others)) machine
        (.evaluate value)
  | afterPositional {machine after : Machine} {value : Expression} {id position : Nat}
      {others : List Field} {given : Value} (gives : Gives fuel scope machine value given after) :
      Part fuel scope machine (.fill id position (.positional value :: others))
        (after.setTable id (.position position) given) (.fill id (position + 1) others)
  | named {machine : Machine} {name : String} {value : Expression} {id position : Nat}
      {others : List Field} :
      Part fuel scope machine (.fill id position (.named name value :: others)) machine
        (.evaluate value)
  | afterNamed {machine after : Machine} {name : String} {value : Expression} {id position : Nat}
      {others : List Field} {given : Value} (gives : Gives fuel scope machine value given after) :
      Part fuel scope machine (.fill id position (.named name value :: others))
        (after.setTable id (.name name) given) (.fill id position others)
  | fieldKey {machine : Machine} {key value : Expression} {id position : Nat}
      {others : List Field} :
      Part fuel scope machine (.fill id position (.keyed key value :: others)) machine
        (.evaluate key)
  | keyed {machine after : Machine} {key value : Expression} {id position : Nat}
      {others : List Field} {asked : Value} {stored : Key}
      (gives : Gives fuel scope machine key asked after) (stands : asked.toKey? = some stored) :
      Part fuel scope machine (.fill id position (.keyed key value :: others)) after
        (.evaluate value)
  | afterKeyed {machine middle after : Machine} {key value : Expression} {id position : Nat}
      {others : List Field} {asked given : Value} {stored : Key}
      (gives : Gives fuel scope machine key asked middle) (stands : asked.toKey? = some stored)
      (gives' : Gives fuel scope middle value given after) :
      Part fuel scope machine (.fill id position (.keyed key value :: others))
        (after.setTable id stored given) (.fill id position others)
  | assigned {machine : Machine} {target value : Expression} :
      Part fuel scope machine (.execute (.assign target value))
        (machine.begin (Statement.assign target value).summary) (.evaluate value)
  | dotTarget {machine after : Machine} {target value : Expression} {name : String}
      {given : Value}
      (gives : Gives fuel scope
        (machine.begin (Statement.assign (.dot target name) value).summary) value given after) :
      Part fuel scope machine (.execute (.assign (.dot target name) value)) after
        (.evaluate target)
  | indexTarget {machine after : Machine} {target key value : Expression} {given : Value}
      (gives : Gives fuel scope
        (machine.begin (Statement.assign (.index target key) value).summary) value given after) :
      Part fuel scope machine (.execute (.assign (.index target key) value)) after
        (.evaluate target)
  | indexKey {machine middle after : Machine} {target key value : Expression} {given : Value}
      {id : Nat}
      (gives : Gives fuel scope
        (machine.begin (Statement.assign (.index target key) value).summary) value given middle)
      (gives' : Gives fuel scope middle target (.table id) after) :
      Part fuel scope machine (.execute (.assign (.index target key) value)) after
        (.evaluate key)
  | declared {machine : Machine} {name : String} {value : Expression} :
      Part fuel scope machine (.execute (.declare name value))
        (machine.begin (Statement.declare name value).summary) (.evaluate value)
  | evaluated {machine : Machine} {expression : Expression} :
      Part fuel scope machine (.execute (.evaluate expression))
        (machine.begin (Statement.evaluate expression).summary) (.evaluate expression)
  | returned {machine : Machine} {value : Expression} :
      Part fuel scope machine (.execute (.returns value))
        (machine.begin (Statement.returns value).summary) (.evaluate value)
  | condition {machine : Machine} {condition : Expression} {body : Block} {others : List Branch}
      {otherwise : Option Block} :
      Part fuel scope machine (.execute (.choose (.mk condition body) others otherwise))
        (machine.begin (Statement.choose (.mk condition body) others otherwise).summary)
        (.evaluate condition)
  | chosen {machine after : Machine} {condition : Expression} {body : Block}
      {others : List Branch} {otherwise : Option Block} {value : Value}
      (gives : Gives fuel scope
        (machine.begin (Statement.choose (.mk condition body) others otherwise).summary)
        condition value after)
      (truthy : value.isTruthy) :
      Part fuel scope machine (.execute (.choose (.mk condition body) others otherwise)) after
        (.executeBlock body)
  | passed {machine after : Machine} {condition : Expression} {body : Block}
      {others : List Branch} {otherwise : Option Block} {value : Value}
      (gives : Gives fuel scope
        (machine.begin (Statement.choose (.mk condition body) others otherwise).summary)
        condition value after)
      (falsy : ¬ value.isTruthy) :
      Part fuel scope machine (.execute (.choose (.mk condition body) others otherwise)) after
        (.executeBranches otherwise others)
  | start {machine : Machine} {name : String} {start limit : Expression}
      {step : Option Expression} {body : Block} :
      Part fuel scope machine (.execute (.loop name start limit step body))
        (machine.begin (Statement.loop name start limit step body).summary) (.evaluate start)
  | limit {machine after : Machine} {name : String} {start limit : Expression}
      {step : Option Expression} {body : Block} {first : Float}
      (gives : Gives fuel scope
        (machine.begin (Statement.loop name start limit step body).summary) start
        (.number first) after) :
      Part fuel scope machine (.execute (.loop name start limit step body)) after
        (.evaluate limit)
  | step {machine middle after : Machine} {name : String} {start limit step : Expression}
      {body : Block} {first last : Float}
      (gives : Gives fuel scope
        (machine.begin (Statement.loop name start limit (some step) body).summary) start
        (.number first) middle)
      (gives' : Gives fuel scope middle limit (.number last) after) :
      Part fuel scope machine (.execute (.loop name start limit (some step) body)) after
        (.evaluate step)
  | statement {machine : Machine} {first : Statement} {others : Block} :
      Part fuel scope machine (.executeBlock (first :: others)) machine (.execute first)
  | nextCondition {machine : Machine} {condition : Expression} {body : Block}
      {others : List Branch} {otherwise : Option Block} :
      Part fuel scope machine (.executeBranches otherwise (.mk condition body :: others)) machine
        (.evaluate condition)
  | nextChosen {machine after : Machine} {condition : Expression} {body : Block}
      {others : List Branch} {otherwise : Option Block} {value : Value}
      (gives : Gives fuel scope machine condition value after) (truthy : value.isTruthy) :
      Part fuel scope machine (.executeBranches otherwise (.mk condition body :: others)) after
        (.executeBlock body)
  | nextPassed {machine after : Machine} {condition : Expression} {body : Block}
      {others : List Branch} {otherwise : Option Block} {value : Value}
      (gives : Gives fuel scope machine condition value after) (falsy : ¬ value.isTruthy) :
      Part fuel scope machine (.executeBranches otherwise (.mk condition body :: others)) after
        (.executeBranches otherwise others)
  | otherwise {machine : Machine} {body : Block} :
      Part fuel scope machine (.executeBranches (some body) []) machine (.executeBlock body)

/-- The numbers that a loop counts with, and the machine that its rounds start on. -/
inductive Counts (fuel : Nat) (scope : Scope) (machine : Machine) (start limit : Expression) :
    Option Expression → (first last by' : Float) → Machine → Prop where
  | byOne {middle after : Machine} {first last : Float}
      (gives : Gives fuel scope machine start (.number first) middle)
      (gives' : Gives fuel scope middle limit (.number last) after) :
      Counts fuel scope machine start limit none first last 1 after
  | byStep {middle further after : Machine} {step : Expression} {first last width : Float}
      (gives : Gives fuel scope machine start (.number first) middle)
      (gives' : Gives fuel scope middle limit (.number last) further)
      (gives'' : Gives fuel scope further step (.number width) after) :
      Counts fuel scope machine start limit (some step) first last width after

/-- The second activity is entered in the course of the first one. -/
inductive Enters : Activity → Activity → Prop where
  | part {fuel : Nat} {machine after : Machine} {scope : Scope} {outer : List Scope}
      {task inner : Task} (part : Part fuel scope machine task after inner) :
      Enters ⟨fuel, machine, scope :: outer, task⟩ ⟨fuel, after, scope :: outer, inner⟩
  | call {fuel : Nat} {machine called after : Machine} {scope : Scope} {outer : List Scope}
      {callee : Expression} {arguments : List Expression} {id : Nat} {values : List Value}
      (gives : Gives fuel scope machine callee (.function id) called)
      (given : evaluateAll (apply fuel) fuel scope arguments called = .done values after) :
      Enters ⟨fuel, machine, scope :: outer, .evaluate (.call callee arguments)⟩
        ⟨fuel, after, scope :: outer, .apply (.function id) values⟩
  /-- The statements behind the first one run in the scope that it leaves. -/
  | following {fuel : Nat} {machine after : Machine} {scope next : Scope} {outer : List Scope}
      {first : Statement} {others : Block}
      (executed : execute (apply fuel) fuel scope first machine = .done (.next next) after) :
      Enters ⟨fuel, machine, scope :: outer, .executeBlock (first :: others)⟩
        ⟨fuel, after, next :: outer, .executeBlock others⟩
  /-- The rounds of a loop run in a copy of the scope. -/
  | loop {fuel : Nat} {machine after : Machine} {scope : Scope} {outer : List Scope}
      {name : String} {start limit : Expression} {step : Option Expression} {body : Block}
      {first last width : Float}
      (counts : Counts fuel scope
        (machine.begin (Statement.loop name start limit step body).summary) start limit step
        first last width after) :
      Enters ⟨fuel, machine, scope :: outer, .execute (.loop name start limit step body)⟩
        ⟨fuel, after, scope :: scope :: outer, .rounds body name last width fuel first⟩
  | round {fuel bound : Nat} {machine : Machine} {scope : Scope} {outer : List Scope}
      {body : Block} {name : String} {limit step counter : Float} (inside : counter ≤ limit) :
      Enters ⟨fuel, machine, scope :: outer, .rounds body name limit step (bound + 1) counter⟩
        ⟨fuel, { machine with cells := (scope.put machine.cells name (.number counter)).2 },
          (scope.put machine.cells name (.number counter)).1 :: outer, .executeBlock body⟩
  | nextRound {fuel bound : Nat} {machine after : Machine} {scope next : Scope}
      {outer : List Scope} {body : Block} {name : String} {limit step counter : Float}
      (inside : counter ≤ limit)
      (executed : executeBlock (apply fuel) fuel
        (scope.put machine.cells name (.number counter)).1 body
        { machine with cells := (scope.put machine.cells name (.number counter)).2 } =
          .done (.next next) after) :
      Enters ⟨fuel, machine, scope :: outer, .rounds body name limit step (bound + 1) counter⟩
        ⟨fuel, after, next :: outer, .rounds body name limit step bound (counter + step)⟩
  /-- A script function runs in a copy of the scope that it was made in. -/
  | activation {fuel : Nat} {machine entered : Machine} {scopes : List Scope} {id : Nat}
      {closure : Closure} {arguments : List Value} {scope : Scope}
      (found : machine.callable id = .closure closure)
      (enters : enter closure arguments machine = .done scope entered) :
      Enters ⟨fuel + 1, machine, scopes, .apply (.function id) arguments⟩
        ⟨fuel, entered, scope :: scopes, .executeBlock closure.body⟩
  | once {fuel : Nat} {machine : Machine} {scopes : List Scope} {id : Nat} {name : String}
      {function value : Value} {others : List Value}
      (found : machine.callable id = .native name .twice) :
      Enters ⟨fuel + 1, machine, scopes, .apply (.function id) (function :: value :: others)⟩
        ⟨fuel, machine, scopes, .apply function [value]⟩
  | twice {fuel : Nat} {machine after : Machine} {scopes : List Scope} {id : Nat} {name : String}
      {function value result : Value} {others : List Value}
      (found : machine.callable id = .native name .twice)
      (applied : apply fuel function [value] machine = .done result after) :
      Enters ⟨fuel + 1, machine, scopes, .apply (.function id) (function :: value :: others)⟩
        ⟨fuel, after, scopes, .apply function [result]⟩
  | attempt {fuel : Nat} {machine : Machine} {scopes : List Scope} {id : Nat} {name : String}
      {function : Value} {others : List Value}
      (found : machine.callable id = .native name .attempt) :
      Enters ⟨fuel + 1, machine, scopes, .apply (.function id) (function :: others)⟩
        ⟨fuel, machine, scopes, .apply function others⟩

/-- The second activity is the first one, or goes on inside of it. -/
inductive Visits (activity : Activity) : Activity → Prop where
  | refl : Visits activity activity
  | step {middle last : Activity} (visits : Visits activity middle) (enters : Enters middle last) :
      Visits activity last

theorem visits_trans {first second third : Activity} (visits : Visits first second)
    (visits' : Visits second third) : Visits first third := by
  induction visits' with
  | refl => exact visits
  | step _ enters ih => exact .step ih enters

theorem enters_visits {first second third : Activity} (enters : Enters first second)
    (visits : Visits second third) : Visits first third :=
  visits_trans (.step .refl enters) visits

theorem visits_first {activity inner : Activity} :
    Visits activity inner ↔
      inner = activity ∨ ∃ middle, Enters activity middle ∧ Visits middle inner := by
  constructor
  · intro visits
    induction visits with
    | refl => exact .inl rfl
    | step _ enters ih =>
        rcases ih with rfl | ⟨first, entered, visits⟩
        · exact .inr ⟨_, enters, .refl⟩
        · exact .inr ⟨first, entered, .step visits enters⟩
  · rintro (rfl | ⟨middle, enters, visits⟩)
    · exact .refl
    · exact enters_visits enters visits

namespace Activity

/-- The machine that the activity ends on, with a value or with a failure, if it does end. -/
def machine? : Activity → Option Machine
  | ⟨fuel, machine, scope :: _, .evaluate expression⟩ =>
      (Evaluation.evaluate (apply fuel) fuel scope expression machine).machine?
  | ⟨fuel, machine, scope :: _, .evaluateAll expressions⟩ =>
      (Evaluation.evaluateAll (apply fuel) fuel scope expressions machine).machine?
  | ⟨fuel, machine, scope :: _, .fill id position fields⟩ =>
      (fillTable (apply fuel) fuel scope id position fields machine).machine?
  | ⟨fuel, machine, scope :: _, .execute statement⟩ =>
      (Evaluation.execute (apply fuel) fuel scope statement machine).machine?
  | ⟨fuel, machine, scope :: _, .executeBlock statements⟩ =>
      (Evaluation.executeBlock (apply fuel) fuel scope statements machine).machine?
  | ⟨fuel, machine, scope :: _, .executeBranches otherwise branches⟩ =>
      (Evaluation.executeBranches (apply fuel) fuel scope
        (executeOtherwise (apply fuel) fuel scope otherwise) branches machine).machine?
  | ⟨fuel, machine, scope :: _, .rounds body name limit step bound counter⟩ =>
      (Evaluation.rounds (fun scope => Evaluation.executeBlock (apply fuel) fuel scope body) name
        limit step bound counter scope machine).machine?
  | ⟨fuel, machine, _, .apply function arguments⟩ =>
      (Evaluation.apply fuel function arguments machine).machine?
  | _ => none

end Activity

end LuaCore
