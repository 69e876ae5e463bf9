import LuaCore.Proofs.Activity

/-!
The stages of an activity: everything that it enters, in the order in which that is done. Between
two of them the activity counts no statement. An activity is entered with less fuel or for a smaller
task than the one around it, so that what holds of an activity can be derived from its stages.
-/

namespace LuaCore

open Evaluation

section

variable {α β : Type}

/-- What comes behind a computation, if that ends with a value. -/
def Outcome.behind (outcome : Outcome α) (list : α → Machine → List β) : List β :=
  match outcome with
  | done value machine => list value machine
  | _ => []

theorem mem_behind {outcome : Outcome α} {value : α} {machine : Machine} {first last : β}
    {list : α → Machine → List β} (given : outcome = .done value machine)
    (member : last ∈ list value machine) : last ∈ first :: outcome.behind list := by
  rw [given]
  exact List.mem_cons_of_mem _ member

end

namespace Activity

section

variable (fuel : Nat) (scope : Scope) (outer : List Scope)

/-- The value that an expression is evaluated to. -/
abbrev giving (expression : Expression) : Eval Value :=
  Evaluation.evaluate (apply fuel) fuel scope expression

/-- The table that an expression is evaluated to. -/
def givingTable (expression : Expression) : Eval Nat :=
  Eval.bind (giving fuel scope expression) requireTable

def givingKey (expression : Expression) : Eval Key :=
  Eval.bind (giving fuel scope expression) requireKey

def givingNumber (place : Misuse) (expression : Expression) : Eval Float :=
  Eval.bind (giving fuel scope expression) (requireNumber place)

/-- Something done in the same scope. -/
abbrev inside (machine : Machine) (task : Task) : Activity :=
  ⟨fuel, machine, scope :: outer, task⟩

def expressionStages (machine : Machine) : Expression → List Activity
  | .table fields =>
      [inside fuel scope outer machine.newTable.2 (.fill machine.newTable.1 1 fields)]
  | .binary lhs _ rhs =>
      inside fuel scope outer machine (.evaluate lhs) ::
        (giving fuel scope lhs machine).behind fun _ after =>
          [inside fuel scope outer after (.evaluate rhs)]
  | .call callee arguments =>
      inside fuel scope outer machine (.evaluate callee) ::
        (giving fuel scope callee machine).behind fun value called => match value with
          | .function id =>
              inside fuel scope outer called (.evaluateAll arguments) ::
                (Evaluation.evaluateAll (apply fuel) fuel scope arguments called).behind
                  fun values after => [inside fuel scope outer after (.apply (.function id) values)]
          | _ => []
  | .dot target _ => [inside fuel scope outer machine (.evaluate target)]
  | .index target key =>
      inside fuel scope outer machine (.evaluate target) ::
        (givingTable fuel scope target machine).behind fun _ after =>
          [inside fuel scope outer after (.evaluate key)]
  | _ => []

def listStages (machine : Machine) : List Expression → List Activity
  | [] => []
  | first :: others =>
      inside fuel scope outer machine (.evaluate first) ::
        (giving fuel scope first machine).behind fun _ after =>
          [inside fuel scope outer after (.evaluateAll others)]

def fieldStages (id position : Nat) (machine : Machine) : List Field → List Activity
  | [] => []
  | .positional value :: others =>
      inside fuel scope outer machine (.evaluate value) ::
        (giving fuel scope value machine).behind fun given after =>
          [inside fuel scope outer (after.setTable id (.position position) given)
            (.fill id (position + 1) others)]
  | .named name value :: others =>
      inside fuel scope outer machine (.evaluate value) ::
        (giving fuel scope value machine).behind fun given after =>
          [inside fuel scope outer (after.setTable id (.name name) given)
            (.fill id position others)]
  | .keyed key value :: others =>
      inside fuel scope outer machine (.evaluate key) ::
        (givingKey fuel scope key machine).behind fun stored between =>
          inside fuel scope outer between (.evaluate value) ::
            (giving fuel scope value between).behind fun given after =>
              [inside fuel scope outer (after.setTable id stored given) (.fill id position others)]

/-- The stages of a choice by a condition. -/
def branchStages (body : Block) (others : List Branch) (otherwise : Option Block)
    (machine : Machine) (condition : Expression) : List Activity :=
  inside fuel scope outer machine (.evaluate condition) ::
    (giving fuel scope condition machine).behind fun value after =>
      [inside fuel scope outer after
        (if value.isTruthy then .executeBlock body else .executeBranches otherwise others)]

def branchesStages (machine : Machine) (otherwise : Option Block) : List Branch → List Activity
  | [] => match otherwise with
      | some body => [inside fuel scope outer machine (.executeBlock body)]
      | none => []
  | .mk condition body :: others =>
      branchStages fuel scope outer body others otherwise machine condition

/-- The stages of a statement that is counted. -/
def statementStages (machine : Machine) : Statement → List Activity
  | .assign target value =>
      inside fuel scope outer machine (.evaluate value) ::
        (giving fuel scope value machine).behind fun _ after => match target with
          | .dot .. | .index .. => expressionStages fuel scope outer after target
          | _ => []
  | .declare _ value | .evaluate value | .returns value =>
      [inside fuel scope outer machine (.evaluate value)]
  | .choose (.mk condition body) others otherwise =>
      branchStages fuel scope outer body others otherwise machine condition
  | .loop counter start limit step body =>
      let goes (first last width : Float) (after : Machine) : Activity :=
        ⟨fuel, after, scope :: scope :: outer, .rounds body counter last width fuel first⟩
      inside fuel scope outer machine (.evaluate start) ::
        (givingNumber fuel scope .loopStart start machine).behind fun first started =>
          inside fuel scope outer started (.evaluate limit) ::
            (givingNumber fuel scope .loopLimit limit started).behind fun last limited =>
              match step with
              | none => [goes first last 1 limited]
              | some step =>
                  inside fuel scope outer limited (.evaluate step) ::
                    (givingNumber fuel scope .loopStep step limited).behind fun width after =>
                      [goes first last width after]
  | _ => []

def blockStages (machine : Machine) : Block → List Activity
  | [] => []
  | first :: others =>
      inside fuel scope outer machine (.execute first) ::
        (Evaluation.execute (apply fuel) fuel scope first machine).behind fun flow after =>
          match flow with
          | .next next => [inside fuel next outer after (.executeBlock others)]
          | .result _ => []

def roundStages (body : Block) (name : String) (limit step : Float) (machine : Machine)
    (counter : Float) : Nat → List Activity
  | 0 => []
  | bound + 1 =>
      if counter ≤ limit then
        let bound' := scope.put machine.cells name (.number counter)
        let start := { machine with cells := bound'.2 }
        inside fuel bound'.1 outer start (.executeBlock body) ::
          (Evaluation.executeBlock (apply fuel) fuel bound'.1 body start).behind fun flow after =>
            match flow with
            | .next next =>
                [inside fuel next outer after (.rounds body name limit step bound (counter + step))]
            | .result _ => []
      else []

def nativeStages (machine : Machine) (scopes : List Scope) (native : Native)
    (arguments : List Value) : List Activity :=
  match native, arguments with
  | .twice, function :: value :: _ =>
      ⟨fuel, machine, scopes, .apply function [value]⟩ ::
        (apply fuel function [value] machine).behind fun result after =>
          [⟨fuel, after, scopes, .apply function [result]⟩]
  | .attempt, function :: others => [⟨fuel, machine, scopes, .apply function others⟩]
  | _, _ => []

end

def callStages (machine : Machine) (scopes : List Scope) (arguments : List Value) :
    Nat → Value → List Activity
  | fuel + 1, .function id => match machine.callable id with
      | .native _ native => nativeStages fuel machine scopes native arguments
      | .closure closure =>
          (enter closure arguments machine).behind fun scope entered =>
            [⟨fuel, entered, scope :: scopes, .executeBlock closure.body⟩]
  | _, _ => []

/-- The machine behind the counting of a statement. -/
def begun (activity : Activity) : Machine :=
  match activity.task with
  | .execute statement => activity.machine.begin statement.summary
  | _ => activity.machine

/-- What an activity enters, in order. -/
def stages (activity : Activity) : List Activity :=
  let machine := activity.begun
  match activity.scopes, activity.task with
  | scopes, .apply function arguments =>
      callStages machine scopes arguments activity.fuel function
  | scope :: outer, .evaluate expression =>
      expressionStages activity.fuel scope outer machine expression
  | scope :: outer, .evaluateAll expressions =>
      listStages activity.fuel scope outer machine expressions
  | scope :: outer, .fill id position fields =>
      fieldStages activity.fuel scope outer id position machine fields
  | scope :: outer, .execute statement =>
      statementStages activity.fuel scope outer machine statement
  | scope :: outer, .executeBlock statements =>
      blockStages activity.fuel scope outer machine statements
  | scope :: outer, .executeBranches otherwise branches =>
      branchesStages activity.fuel scope outer machine otherwise branches
  | scope :: outer, .rounds body name limit step bound counter =>
      roundStages activity.fuel scope outer body name limit step machine counter bound
  | [], _ => []

end Activity

open Activity

variable {fuel : Nat} {scope : Scope} {outer : List Scope} {machine after : Machine}

theorem bind_given {α β : Type} {first : Eval α} {rest : α → Eval β} {value : α}
    (given : first machine = .done value after) :
    Eval.bind first rest machine = rest value after := by
  unfold Eval.bind
  rw [given]

theorem table_given {target : Expression} {id : Nat}
    (gives : Gives fuel scope machine target (.table id) after) :
    givingTable fuel scope target machine = .done id after :=
  bind_given gives

theorem key_given {key : Expression} {value : Value} {stored : Key}
    (gives : Gives fuel scope machine key value after) (stands : value.toKey? = some stored) :
    givingKey fuel scope key machine = .done stored after := by
  refine (bind_given gives).trans ?_
  simp only [requireKey, stands]
  rfl

theorem number_given {place : Misuse} {expression : Expression} {x : Float}
    (gives : Gives fuel scope machine expression (.number x) after) :
    givingNumber fuel scope place expression machine = .done x after :=
  bind_given gives

theorem part_stage {task inner : Task} (part : Part fuel scope machine task after inner) :
    inside fuel scope outer after inner ∈ (inside fuel scope outer machine task).stages := by
  cases part with
  | fields | lhs | callee | dotted | indexed | first | positional | named | fieldKey | assigned
  | declared | evaluated | returned | condition | start | statement | nextCondition | otherwise =>
      exact List.mem_cons_self
  | rhs gives | others gives | afterPositional gives | afterNamed gives | dotTarget gives
  | indexTarget gives => exact mem_behind gives List.mem_cons_self
  | arguments gives => exact mem_behind gives List.mem_cons_self
  | key gives => exact mem_behind (table_given gives) List.mem_cons_self
  | keyed gives stands => exact mem_behind (key_given gives stands) List.mem_cons_self
  | afterKeyed gives stands gives' =>
      exact mem_behind (key_given gives stands) (mem_behind gives' List.mem_cons_self)
  | indexKey gives gives' =>
      exact mem_behind gives (mem_behind (table_given gives') List.mem_cons_self)
  | chosen gives truthy | nextChosen gives truthy =>
      exact mem_behind gives (by rw [if_pos truthy]; exact List.mem_cons_self)
  | passed gives falsy | nextPassed gives falsy =>
      exact mem_behind gives (by rw [if_neg falsy]; exact List.mem_cons_self)
  | limit gives => exact mem_behind (number_given gives) List.mem_cons_self
  | step gives gives' =>
      exact mem_behind (number_given gives) (mem_behind (number_given gives') List.mem_cons_self)

/-- Everything that is entered is one of the stages. -/
theorem enters_stage {activity inner : Activity} (enters : Enters activity inner) :
    inner ∈ activity.stages := by
  cases enters with
  | part part => exact part_stage part
  | call gives given => exact mem_behind gives (mem_behind given List.mem_cons_self)
  | following executed => exact mem_behind executed List.mem_cons_self
  | loop counts =>
      cases counts with
      | byOne gives gives' =>
          exact mem_behind (number_given gives)
            (mem_behind (number_given gives') List.mem_cons_self)
      | byStep gives gives' gives'' =>
          exact mem_behind (number_given gives) (mem_behind (number_given gives')
            (mem_behind (number_given gives'') List.mem_cons_self))
  | round inside =>
      simp only [stages, begun, roundStages, if_pos inside]
      exact List.mem_cons_self
  | nextRound inside executed =>
      simp only [stages, begun, roundStages, if_pos inside]
      exact mem_behind executed List.mem_cons_self
  | activation found enters =>
      simp only [stages, begun, callStages, found, enters]
      exact List.mem_cons_self
  | once found =>
      simp only [stages, begun, callStages, found]
      exact List.mem_cons_self
  | twice found applied =>
      simp only [stages, begun, callStages, found]
      exact mem_behind applied List.mem_cons_self
  | attempt found =>
      simp only [stages, begun, callStages, found]
      exact List.mem_cons_self

/-! Induction on what is entered. -/

/-- How much there is to do for a task at most, apart from calls and from the rounds of loops. -/
noncomputable def Task.size : Task → Nat
  | .evaluate expression => sizeOf expression
  | .evaluateAll expressions => sizeOf expressions
  | .fill _ _ fields => sizeOf fields
  | .execute statement => sizeOf statement
  | .executeBlock statements => sizeOf statements
  | .executeBranches otherwise branches => sizeOf otherwise + sizeOf branches
  | .rounds body .. => sizeOf body + 1
  | .apply .. => 0

/-- The number of rounds that a loop has left at most. -/
def Task.remaining : Task → Nat
  | .rounds _ _ _ _ bound _ => bound
  | _ => 0

theorem part_smaller {task inner : Task} (part : Part fuel scope machine task after inner) :
    inner.size < task.size := by
  cases part <;> simp [Task.size] <;> omega

theorem loop_size (name : String) (start limit : Expression) (step : Option Expression)
    (body : Block) : sizeOf body + 1 < sizeOf (Statement.loop name start limit step body) := by
  have positive : 0 < sizeOf step := by
    cases step <;> simp only [Option.none.sizeOf_spec, Option.some.sizeOf_spec] <;> omega
  rw [Statement.loop.sizeOf_spec]
  omega

theorem enters_smaller {activity inner : Activity} (enters : Enters activity inner) :
    inner.fuel < activity.fuel ∨ inner.fuel = activity.fuel ∧
      (inner.task.size < activity.task.size ∨ inner.task.size = activity.task.size ∧
        inner.task.remaining < activity.task.remaining) := by
  cases enters with
  | part part => exact .inr ⟨rfl, .inl (part_smaller part)⟩
  | loop => exact .inr ⟨rfl, .inl (loop_size ..)⟩
  | call | following | round =>
      refine .inr ⟨rfl, .inl ?_⟩
      simp only [Task.size, Expression.call.sizeOf_spec, List.cons.sizeOf_spec]
      omega
  | nextRound => exact .inr ⟨rfl, .inr ⟨rfl, Nat.lt_succ_self _⟩⟩
  | activation | once | twice | attempt => exact .inl (Nat.lt_succ_self _)

/-- What holds of an activity if it holds of all that the activity enters holds of every one. -/
theorem enters_induction {holds : Activity → Prop}
    (step : ∀ activity, (∀ inner, Enters activity inner → holds inner) → holds activity)
    (activity : Activity) : holds activity :=
  step activity fun inner _ => enters_induction step inner
termination_by (activity.fuel, activity.task.size, activity.task.remaining)
decreasing_by
  simp only [Prod.lex_def]
  exact enters_smaller ‹_›

end LuaCore
