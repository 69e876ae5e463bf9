import LuaCore.Proofs.Heap
import LuaCore.Proofs.Hosting

/-!
Two runs alongside each other. A bond says what two machines have in common, and which functions on
the one side answer to which on the other. Runs that take the same steps on both sides keep it, and
end with the same value or in failures that answer to each other. This is shown for the steps that
programs are made of, natives and calls included; the trees on the two sides may be different ones.
-/

namespace LuaCore

open Evaluation

/-- The machines cannot be told apart by what a program reads, apart from functions. -/
structure Machine.Agrees (machine other : Machine) : Prop where
  globals : machine.globals = other.globals
  cells : machine.cells = other.cells
  tables : machine.tables = other.tables
  depth : machine.depth = other.depth
  addressed : machine.addressed = other.addressed

/-- The key stands for a value, or for a place that may be counted up to. -/
def Key.Within (places : Nat → Prop) (key : Key) : Prop :=
  (∃ value : Value, value.toKey? = some key) ∨ ∃ place, places place ∧ key = .position place

/-- The functions differ in their bodies only. -/
inductive Callable.Alike (bodies : Block → Block → Prop) : Callable → Callable → Prop where
  | closure {name : Option String} {parameters : List String} {body other : Block} {capture : Scope}
      (alike : bodies body other) :
      Alike bodies (.closure ⟨name, parameters, body, capture⟩)
        (.closure ⟨name, parameters, other, capture⟩)
  | native (name : String) (native : Native) :
      Alike bodies (.native name native) (.native name native)

-- The laws say that the bond is kept by each change of a machine that is made on both sides.
structure Bond where
  machines : Machine → Machine → Prop
  failures : Failure → Failure → Prop
  bodies : Block → Block → Prop
  /-- How far the constructors of tables may count. -/
  places : Nat → Prop
  failures_refl (failure : Failure) : failures failure failure
  failures_leaving {failure other : Failure} (name : String) :
    failures failure other → failures (failure.leaving name) (other.leaving name)
  failures_misuse {failure other : Failure} : failures failure other →
    failure = other ∨ (failure.isMisuse = false ∧ other.isMisuse = false)
  agrees {machine other : Machine} : machines machine other → machine.Agrees other
  callable {machine other : Machine} (id : Nat) : machines machine other →
    Callable.Alike bodies (machine.callable id) (other.callable id)
  writeGlobals {machine other : Machine} (globals : Scope) : machines machine other →
    machines { machine with globals := globals } { other with globals := globals }
  writeCells {machine other : Machine} (cells : Cells) : machines machine other →
    machines { machine with cells := cells } { other with cells := cells }
  newTable {machine other : Machine} : machines machine other →
    machines machine.newTable.2 other.newTable.2
  setTable {machine other : Machine} {key : Key} (id : Nat) (value : Value) :
    machines machine other → key.Within places →
    machines (machine.setTable id key value) (other.setTable id key value)
  newFunction {machine other : Machine} {function function' : Callable} : machines machine other →
    Callable.Alike bodies function function' →
    (machine.newFunction function).1 = (other.newFunction function').1 ∧
      machines (machine.newFunction function).2 (other.newFunction function').2
  atDepth {machine other : Machine} (depth : Nat) : machines machine other →
    machines (machine.atDepth depth) (other.atDepth depth)
  address {machine other : Machine} (addressed : Array Value) : machines machine other →
    machines { machine with addressed := addressed } { other with addressed := addressed }
  emit {machine other : Machine} (event : Event) : machines machine other →
    (∀ entry, event ≠ .traced entry) → machines (machine.emit event) (other.emit event)

namespace Bond

variable {bond : Bond}

/-- The runs end alongside each other, or none of them ends. -/
inductive Ends (bond : Bond) {α : Type} : Outcome α → Outcome α → Prop where
  | done (value : α) {machine other : Machine} (machines : bond.machines machine other) :
      Ends bond (.done value machine) (.done value other)
  | failed {failure failure' : Failure} {machine other : Machine}
      (failures : bond.failures failure failure') (machines : bond.machines machine other) :
      Ends bond (.failed failure machine) (.failed failure' other)
  | exhausted : Ends bond .exhausted .exhausted

/-- Started on machines of the bond, the computations end alongside each other. -/
def Mirrors (bond : Bond) {α : Type} (body body' : Eval α) : Prop :=
  ∀ machine other, bond.machines machine other → bond.Ends (body machine) (body' other)

section

variable {α β : Type}

theorem mirrors_pure (value : α) : bond.Mirrors (Eval.pure value) (Eval.pure value) :=
  fun _ _ machines => .done value machines

theorem mirrors_fail {failure failure' : Failure} (failures : bond.failures failure failure') :
    bond.Mirrors (Eval.fail failure : Eval α) (Eval.fail failure') :=
  fun _ _ machines => .failed failures machines

theorem mirrors_misuse (place : Misuse) (value : Value) :
    bond.Mirrors (Eval.misuse place value : Eval α) (Eval.misuse place value) :=
  mirrors_fail (bond.failures_refl _)

theorem mirrors_exhaust : bond.Mirrors (Eval.exhaust : Eval α) Eval.exhaust :=
  fun _ _ _ => .exhausted

theorem ends_bind {first first' : Eval α} {rest rest' : α → Eval β} {machine other : Machine}
    (ends : bond.Ends (first machine) (first' other))
    (goes : ∀ value after after', first' other = .done value after' → bond.machines after after' →
      bond.Ends (rest value after) (rest' value after')) :
    bond.Ends (Eval.bind first rest machine) (Eval.bind first' rest' other) := by
  unfold Eval.bind
  generalize first machine = outcome at ends
  generalize ran : first' other = outcome' at ends
  cases ends with
  | done value machines => exact goes value _ _ ran machines
  | failed failures machines => exact .failed failures machines
  | exhausted => exact .exhausted

theorem mirrors_bind {first first' : Eval α} {rest rest' : α → Eval β}
    (mirrors : bond.Mirrors first first')
    (goes : ∀ value, bond.Mirrors (rest value) (rest' value)) :
    bond.Mirrors (Eval.bind first rest) (Eval.bind first' rest') :=
  fun machine other machines =>
    ends_bind (mirrors machine other machines) fun value after after' _ => goes value after after'

theorem mirrors_read {view : Machine → α}
    (same : ∀ machine other, bond.machines machine other → view machine = view other) :
    bond.Mirrors (Eval.read view) (Eval.read view) := by
  intro machine other machines
  unfold Eval.read
  rw [same machine other machines]
  exact .done _ machines

/-- A change on both sides that yields the same value. -/
theorem mirrors_update {change change' : Machine → α × Machine}
    (same : ∀ machine other, bond.machines machine other →
      (change machine).1 = (change' other).1 ∧
        bond.machines (change machine).2 (change' other).2) :
    bond.Mirrors (Eval.update change) (Eval.update change') := by
  intro machine other machines
  obtain ⟨value, machines⟩ := same machine other machines
  change bond.Ends (.done (change machine).1 _) (.done (change' other).1 _)
  rw [value]
  exact .done _ machines

theorem mirrors_modify {change change' : Machine → Machine}
    (keeps : ∀ machine other, bond.machines machine other →
      bond.machines (change machine) (change' other)) :
    bond.Mirrors (Eval.modify change) (Eval.modify change') :=
  fun machine other machines => .done () (keeps machine other machines)

theorem ends_finish {body body' : Eval α} (name : String) {leave : Machine → Machine}
    {machine other : Machine} (ends : bond.Ends (body machine) (body' other))
    (keeps : ∀ machine other, bond.machines machine other →
      bond.machines (leave machine) (leave other)) :
    bond.Ends (Eval.finish body (Failure.leaving name) leave machine)
      (Eval.finish body' (Failure.leaving name) leave other) := by
  unfold Eval.finish
  generalize body machine = outcome at ends
  generalize body' other = outcome' at ends
  cases ends with
  | done value machines => exact .done value (keeps _ _ machines)
  | failed failures machines =>
      exact .failed (bond.failures_leaving name failures) (keeps _ _ machines)
  | exhausted => exact .exhausted

theorem mirrors_finish {body body' : Eval α} (name : String) {leave : Machine → Machine}
    (mirrors : bond.Mirrors body body')
    (keeps : ∀ machine other, bond.machines machine other →
      bond.machines (leave machine) (leave other)) :
    bond.Mirrors (Eval.finish body (Failure.leaving name) leave)
      (Eval.finish body' (Failure.leaving name) leave) :=
  fun machine other machines => ends_finish name (mirrors machine other machines) keeps

theorem ends_recover {body body' : Eval α} (handle : Failure → α) {machine other : Machine}
    (ends : bond.Ends (body machine) (body' other)) :
    bond.Ends (Eval.recover body handle machine) (Eval.recover body' handle other) := by
  unfold Eval.recover
  generalize body machine = outcome at ends
  generalize body' other = outcome' at ends
  cases ends with
  | done value machines => exact .done value machines
  | @failed failure failure' _ _ failures machines =>
      rcases bond.failures_misuse failures with rfl | ⟨none, none'⟩
      · by_cases misuse : failure.isMisuse
        · simp only [misuse, if_true]
          exact .done _ machines
        · simp only [misuse]
          exact .failed failures machines
      · simp only [none, none']
        exact .failed failures machines
  | exhausted => exact .exhausted

theorem mirrors_recover {body body' : Eval α} (handle : Failure → α)
    (mirrors : bond.Mirrors body body') :
    bond.Mirrors (Eval.recover body handle) (Eval.recover body' handle) :=
  fun machine other machines => ends_recover handle (mirrors machine other machines)

end

/-! Steps of the evaluator. -/

section

variable {α : Type} (scope : Scope) (name : String) (value : Value)

theorem mirrors_bindName :
    bond.Mirrors (bindName scope name value) (bindName scope name value) := by
  refine mirrors_update fun machine other machines => ?_
  have agrees := bond.agrees machines
  rw [← agrees.cells]
  exact ⟨rfl, bond.writeCells _ machines⟩

theorem mirrors_putGlobal :
    bond.Mirrors (Eval.modify fun machine => machine.putGlobal name value)
      (Eval.modify fun machine => machine.putGlobal name value) := by
  refine mirrors_modify fun machine other machines => ?_
  have agrees := bond.agrees machines
  simp only [Machine.putGlobal]
  rw [← agrees.globals, ← agrees.cells]
  exact bond.writeGlobals _ (bond.writeCells _ machines)

theorem mirrors_assignName :
    bond.Mirrors (assignName scope name value) (assignName scope name value) := by
  unfold assignName
  by_cases bound : scope.has name
  · simp only [bound, if_true]
    exact mirrors_bindName scope name value
  · simp only [bound]
    exact mirrors_bind (mirrors_putGlobal name value) fun _ => mirrors_pure scope

theorem mirrors_lookup :
    bond.Mirrors (Eval.read fun machine => machine.lookup scope name)
      (Eval.read fun machine => machine.lookup scope name) := by
  refine mirrors_read fun machine other machines => ?_
  have agrees := bond.agrees machines
  rw [Machine.lookup, Machine.lookup, agrees.cells, agrees.globals]

theorem mirrors_newFunction {function function' : Callable}
    (alike : Callable.Alike bond.bodies function function') :
    bond.Mirrors (Evaluation.newFunction function) (Evaluation.newFunction function') := by
  refine mirrors_update fun machine other machines => ?_
  obtain ⟨same, after⟩ := bond.newFunction machines alike
  exact ⟨congrArg Value.function same, after⟩

theorem mirrors_newTable : bond.Mirrors Evaluation.newTable Evaluation.newTable := by
  refine mirrors_update fun machine other machines => ⟨?_, bond.newTable machines⟩
  rw [Machine.newTable, Machine.newTable, (bond.agrees machines).tables]

theorem mirrors_requireTable : bond.Mirrors (requireTable value) (requireTable value) := by
  cases value with
  | table id => exact mirrors_pure id
  | _ => exact mirrors_misuse _ _

theorem ends_table {rest rest' : Nat → Eval α} {machine other : Machine}
    (machines : bond.machines machine other)
    (goes : ∀ id, value = .table id → bond.Ends (rest id machine) (rest' id other)) :
    bond.Ends (Eval.bind (requireTable value) rest machine)
      (Eval.bind (requireTable value) rest' other) := by
  cases value with
  | table id => exact goes id rfl
  | _ => exact mirrors_misuse _ _ _ _ machines

theorem ends_key {rest rest' : Key → Eval α} {machine other : Machine}
    (machines : bond.machines machine other)
    (goes : ∀ key, value.toKey? = some key → bond.Ends (rest key machine) (rest' key other)) :
    bond.Ends (Eval.bind (requireKey value) rest machine)
      (Eval.bind (requireKey value) rest' other) := by
  unfold requireKey
  cases stands : value.toKey? with
  | some key => exact goes key stands
  | none => exact mirrors_misuse _ _ _ _ machines

/-- Only a key that stands for a value is gone on with. -/
theorem mirrors_requireKey {rest rest' : Key → Eval α}
    (goes : ∀ key : Key, key.Within bond.places → bond.Mirrors (rest key) (rest' key)) :
    bond.Mirrors (Eval.bind (requireKey value) rest) (Eval.bind (requireKey value) rest') :=
  fun machine other machines => ends_key value machines fun key stands =>
    goes key (.inl ⟨value, stands⟩) machine other machines

theorem mirrors_requireNumber (place : Misuse) :
    bond.Mirrors (requireNumber place value) (requireNumber place value) := by
  cases value with
  | number x => exact mirrors_pure x
  | _ => exact mirrors_misuse _ _

theorem ends_number (place : Misuse) {rest rest' : Float → Eval α} {machine other : Machine}
    (machines : bond.machines machine other)
    (goes : ∀ x, value = .number x → bond.Ends (rest x machine) (rest' x other)) :
    bond.Ends (Eval.bind (requireNumber place value) rest machine)
      (Eval.bind (requireNumber place value) rest' other) := by
  cases value with
  | number x => exact goes x rfl
  | _ => exact mirrors_misuse _ _ _ _ machines

theorem mirrors_readTable (id : Nat) (key : Key) :
    bond.Mirrors (readTable id key) (readTable id key) := by
  refine mirrors_read fun machine other machines => ?_
  rw [Machine.table, Machine.table, (bond.agrees machines).tables]

theorem mirrors_writeTable (id : Nat) {key : Key} (within : key.Within bond.places) :
    bond.Mirrors (writeTable id key value) (writeTable id key value) :=
  mirrors_modify fun _ _ machines => bond.setTable id value machines within

/-- A place in a table is asked for by an expression on both sides. -/
theorem mirrors_indexed {object object' asked asked' : Eval Value}
    {rest rest' : Nat → Key → Eval α} (objects : bond.Mirrors object object')
    (keys : bond.Mirrors asked asked')
    (goes : ∀ id (key : Key), key.Within bond.places → bond.Mirrors (rest id key) (rest' id key)) :
    bond.Mirrors
      (Eval.bind object fun value => Eval.bind (requireTable value) fun id =>
        Eval.bind asked fun value => Eval.bind (requireKey value) fun key => rest id key)
      (Eval.bind object' fun value => Eval.bind (requireTable value) fun id =>
        Eval.bind asked' fun value => Eval.bind (requireKey value) fun key => rest' id key) := by
  apply mirrors_bind objects
  intro value
  apply mirrors_bind (mirrors_requireTable value)
  intro id
  apply mirrors_bind keys
  intro value
  exact mirrors_requireKey value (goes id)

theorem mirrors_operate (operation : Operation) (lhs rhs : Value) :
    bond.Mirrors (operate operation lhs rhs) (operate operation lhs rhs) := by
  unfold operate
  cases binary operation lhs rhs with
  | ok value => exact mirrors_pure value
  | error operand => exact mirrors_misuse _ _

end

/-- The body of a loop is run in other scopes. -/
theorem mirrors_rounds {body body' : Scope → Eval Flow} (name : String) (limit step : Float)
    (mirrors : ∀ scope, bond.Mirrors (body scope) (body' scope)) (fuel : Nat) (counter : Float)
    (scope : Scope) :
    bond.Mirrors (rounds body name limit step fuel counter scope)
      (rounds body' name limit step fuel counter scope) := by
  induction fuel generalizing counter scope with
  | zero => exact mirrors_exhaust
  | succ fuel ih =>
      rw [rounds, rounds]
      by_cases inside : counter ≤ limit
      · rw [if_pos inside, if_pos inside]
        apply mirrors_bind (mirrors_bindName _ _ _)
        intro bound
        apply mirrors_bind (mirrors bound)
        intro flow
        cases flow with
        | next after => exact ih (counter + step) after
        | result value => exact mirrors_pure _
      · rw [if_neg inside, if_neg inside]
        exact mirrors_pure _

/-- A loop is left in the scope around it. -/
theorem mirrors_leave {body body' : Eval Flow} (scope : Scope)
    (mirrors : bond.Mirrors body body') :
    bond.Mirrors
      (Eval.bind body fun flow => match flow with
        | .next _ => Eval.pure (Flow.next scope)
        | .result value => Eval.pure (.result value))
      (Eval.bind body' fun flow => match flow with
        | .next _ => Eval.pure (Flow.next scope)
        | .result value => Eval.pure (.result value)) := by
  apply mirrors_bind mirrors
  intro flow
  cases flow <;> exact mirrors_pure _

theorem mirrors_branch {condition condition' : Eval Value} {body body' behind behind' : Eval Flow}
    (asks : bond.Mirrors condition condition') (runs : bond.Mirrors body body')
    (goes : bond.Mirrors behind behind') :
    bond.Mirrors (Eval.bind condition fun value => if value.isTruthy then body else behind)
      (Eval.bind condition' fun value => if value.isTruthy then body' else behind') := by
  apply mirrors_bind asks
  intro value
  by_cases truthy : value.isTruthy
  · rw [if_pos truthy, if_pos truthy]
    exact runs
  · rw [if_neg truthy, if_neg truthy]
    exact goes

/-! Calls. -/

/-- What one caller does the other one mirrors, whichever function is called. -/
def CallsMirror (bond : Bond) (call call' : Caller) : Prop :=
  ∀ function arguments, bond.Mirrors (call function arguments) (call' function arguments)

theorem plain_machines {machine other : Machine} (value : Value)
    (machines : bond.machines machine other) :
    (Display.plain value machine).1 = (Display.plain value other).1 ∧
      bond.machines (Display.plain value machine).2 (Display.plain value other).2 := by
  have addressed := (bond.agrees machines).addressed
  cases value with
  | table | function =>
      simp only [Display.plain, Machine.address, addressed]
      split
      · exact ⟨rfl, machines⟩
      · exact ⟨rfl, bond.address _ machines⟩
  | _ => exact ⟨rfl, machines⟩

theorem plainAll_machines {machine other : Machine} (values : List Value)
    (machines : bond.machines machine other) :
    (Display.plainAll values machine).1 = (Display.plainAll values other).1 ∧
      bond.machines (Display.plainAll values machine).2 (Display.plainAll values other).2 := by
  induction values generalizing machine other with
  | nil => exact ⟨rfl, machines⟩
  | cons value rest ih =>
      obtain ⟨text, machines⟩ := plain_machines value machines
      obtain ⟨texts, machines⟩ := ih machines
      exact ⟨by simp only [Display.plainAll, text, texts], machines⟩

theorem printedLine_machines {machine other : Machine} (arguments : List Value)
    (machines : bond.machines machine other) :
    bond.machines (Native.printedLine arguments machine)
      (Native.printedLine arguments other) := by
  obtain ⟨texts, machines⟩ := plainAll_machines arguments machines
  simp only [Native.printedLine, texts]
  exact bond.emit _ machines nofun

theorem recordAll_machines {machine other : Machine} (arguments : List Value)
    (machines : bond.machines machine other) :
    bond.machines (Native.recordAll arguments machine) (Native.recordAll arguments other) := by
  unfold Native.recordAll
  induction arguments generalizing machine other with
  | nil => exact machines
  | cons value rest ih => exact ih (bond.emit _ machines nofun)

theorem mirrors_native {call call' : Caller} (native : Native) (arguments : List Value)
    (calls : bond.CallsMirror call call') :
    bond.Mirrors (native.run call arguments) (native.run call' arguments) := by
  cases native with
  | print =>
      refine mirrors_bind (mirrors_modify ?_) fun _ => mirrors_pure _
      exact fun _ _ machines => printedLine_machines arguments machines
  | type | idle => exact mirrors_pure _
  | tostring =>
      refine mirrors_bind (mirrors_update ?_) fun _ => mirrors_pure _
      exact fun _ _ machines => plain_machines _ machines
  | record =>
      refine mirrors_bind (mirrors_modify ?_) fun _ => mirrors_pure _
      exact fun _ _ machines => recordAll_machines arguments machines
  | fail => exact mirrors_fail (bond.failures_refl _)
  | twice =>
      rcases arguments with _ | ⟨function, _ | ⟨value, rest⟩⟩
      · exact mirrors_fail (bond.failures_refl _)
      · exact mirrors_fail (bond.failures_refl _)
      · apply mirrors_bind (calls function [value])
        intro once
        exact calls function [once]
  | setKey =>
      simp only [Native.run]
      split
      · next id key value _ =>
          cases stands : key.toKey? with
          | some stored =>
              exact mirrors_bind (mirrors_writeTable value id (.inl ⟨key, stands⟩)) fun _ =>
                mirrors_pure _
          | none => exact mirrors_misuse _ _
      · exact mirrors_fail (bond.failures_refl _)
  | sum =>
      simp only [Native.run]
      cases Native.total? 0 arguments with
      | some result => exact mirrors_pure _
      | none => exact mirrors_fail (bond.failures_refl _)
  | attempt =>
      cases arguments with
      | nil => exact mirrors_fail (bond.failures_refl _)
      | cons function rest => exact mirrors_recover _ (calls function rest)

theorem ends_callable {id : Nat} {rest rest' : Callable → Eval Value} {machine other : Machine}
    (machines : bond.machines machine other)
    (goes : ∀ function function', other.callable id = function' →
      Callable.Alike bond.bodies function function' →
        bond.Ends (rest function machine) (rest' function' other)) :
    bond.Ends (Eval.bind (Eval.read fun machine => machine.callable id) rest machine)
      (Eval.bind (Eval.read fun machine => machine.callable id) rest' other) :=
  goes _ _ rfl (bond.callable id machines)

theorem mirrors_callable {id : Nat} {rest rest' : Callable → Eval Value}
    (goes : ∀ function function', Callable.Alike bond.bodies function function' →
      bond.Mirrors (rest function) (rest' function')) :
    bond.Mirrors (Eval.bind (Eval.read fun machine => machine.callable id) rest)
      (Eval.bind (Eval.read fun machine => machine.callable id) rest') :=
  fun machine other machines => ends_callable machines fun function function' _ alike =>
    goes function function' alike machine other machines

theorem mirrors_enter {closure closure' : Closure} (arguments : List Value)
    (parameters : closure.parameters = closure'.parameters)
    (capture : closure.capture = closure'.capture) :
    bond.Mirrors (enter closure arguments) (enter closure' arguments) := by
  refine mirrors_update fun machine other machines => ?_
  have agrees := bond.agrees machines
  rw [← parameters, ← capture, ← agrees.cells, ← agrees.depth]
  let next := closure.capture.putAll machine.cells (Closure.bind closure.parameters arguments)
  exact ⟨rfl, bond.atDepth (machine.depth + 1) (bond.writeCells next.2 machines)⟩

/-- Natives of the host keep the bond as far as the calls do that they make. -/
def Admits (bond : Bond) (host : Host) : Prop :=
  ∀ id native call arguments, bond.CallsMirror call call →
    bond.Mirrors (host id native call arguments) (host id native call arguments)

theorem admits_own : bond.Admits .own :=
  fun _ native _ arguments calls => mirrors_native native arguments calls

/-- Bodies that answer to each other are to be run alongside each other, whatever the fuel. -/
theorem mirrors_applyWith {host : Host} (admits : bond.Admits host)
    (blocks : ∀ (call call' : Caller) fuel scope body body', bond.CallsMirror call call' →
      bond.bodies body body' →
        bond.Mirrors (executeBlock call fuel scope body) (executeBlock call' fuel scope body'))
    (fuel : Nat) : bond.CallsMirror (applyWith host fuel) (applyWith host fuel) := by
  induction fuel with
  | zero => exact fun _ _ => mirrors_exhaust
  | succ fuel ih =>
      intro function arguments
      cases function with
      | function id =>
          rw [applyWith]
          apply mirrors_callable
          intro function function' alike
          cases alike with
          | native name native => exact admits id native _ arguments ih
          | closure bodies =>
              apply mirrors_bind (mirrors_enter arguments rfl rfl)
              intro scope
              refine mirrors_bind (mirrors_finish _ (blocks _ _ _ _ _ _ ih bodies) ?_) fun _ =>
                mirrors_pure _
              intro machine other machines
              rw [(bond.agrees machines).depth]
              exact bond.atDepth _ machines
      | _ => exact mirrors_misuse _ _

theorem mirrors_apply
    (blocks : ∀ (call call' : Caller) fuel scope body body', bond.CallsMirror call call' →
      bond.bodies body body' →
        bond.Mirrors (executeBlock call fuel scope body) (executeBlock call' fuel scope body'))
    (fuel : Nat) : bond.CallsMirror (apply fuel) (apply fuel) := by
  rw [← apply_own]
  exact mirrors_applyWith admits_own blocks fuel

end Bond

end LuaCore
