import LuaCore.Proofs.Activity
import LuaCore.Proofs.Mirroring

/-!
Sugar: dots, named fields and `elseif` say nothing that brackets, keyed fields and nested choices do
not say. A program and the one without sugar do the same to machines that differ in the bodies of
their functions only, but for the number of statements that are counted on the way.
-/

namespace LuaCore

open Evaluation

/-! Programs without sugar. -/

mutual

def Expression.desugar : Expression → Expression
  | .number value => .number value
  | .string value => .string value
  | .boolean value => .boolean value
  | .nil => .nil
  | .name name => .name name
  | .table fields => .table (Field.desugarAll fields)
  | .binary lhs operation rhs => .binary lhs.desugar operation rhs.desugar
  | .call callee arguments => .call callee.desugar (Expression.desugarAll arguments)
  | .dot target name => .index target.desugar (.string name)
  | .index target key => .index target.desugar key.desugar
  | .function parameters body => .function parameters (Block.desugar body)
  | .strayStatement statement => .strayStatement statement.desugar
  | .strayField field => .strayField field.desugar

def Expression.desugarAll : List Expression → List Expression
  | [] => []
  | expression :: rest => expression.desugar :: Expression.desugarAll rest

def Expression.desugar? : Option Expression → Option Expression
  | none => none
  | some expression => some expression.desugar

def Field.desugar : Field → Field
  | .positional value => .positional value.desugar
  | .named name value => .keyed (.string name) value.desugar
  | .keyed key value => .keyed key.desugar value.desugar

def Field.desugarAll : List Field → List Field
  | [] => []
  | field :: rest => field.desugar :: Field.desugarAll rest

def Branch.desugar : Branch → Branch
  | .mk condition body => .mk condition.desugar (Block.desugar body)

/-- Further branches as choices, each in the block behind the one before. -/
def Branch.nest : List Branch → (otherwise : Option Block) → Option Block
  | [], otherwise => otherwise
  | branch :: others, otherwise => some [.choose branch.desugar [] (Branch.nest others otherwise)]

def Statement.desugar : Statement → Statement
  | .assign target value => .assign target.desugar value.desugar
  | .declare name value => .declare name value.desugar
  | .evaluate expression => .evaluate expression.desugar
  | .returns value => .returns value.desugar
  | .function name parameters body => .function name parameters (Block.desugar body)
  | .choose first others otherwise =>
      .choose first.desugar [] (Branch.nest others (Block.desugar? otherwise))
  | .loop counter start limit step body =>
      .loop counter start.desugar limit.desugar (Expression.desugar? step) (Block.desugar body)
  | .strayExpression expression => .strayExpression expression.desugar
  | .strayField field => .strayField field.desugar

def Block.desugar : List Statement → List Statement
  | [] => []
  | statement :: rest => statement.desugar :: Block.desugar rest

def Block.desugar? : Option (List Statement) → Option (List Statement)
  | none => none
  | some body => some (Block.desugar body)

end

/-! Machines with functions without sugar. -/

def Closure.desugar (closure : Closure) : Closure :=
  { closure with body := Block.desugar closure.body }

def Callable.desugar : Callable → Callable
  | .closure script => .closure script.desugar
  | .native name host => .native name host

namespace Machine

/-- The machine with the bodies of its functions without sugar, at some number of steps. -/
def desugar (machine : Machine) (steps : Nat) : Machine :=
  { machine with functions := machine.functions.map Callable.desugar, steps := steps }

/-- The machines trace nothing, and differ in the bodies of functions and in the steps only. -/
def Corresponds (machine plain : Machine) : Prop :=
  machine.verbosity = 0 ∧ ∃ steps, plain = machine.desugar steps

theorem corresponds_desugar {machine : Machine} (silent : machine.verbosity = 0) (steps : Nat) :
    machine.Corresponds (machine.desugar steps) :=
  ⟨silent, steps, rfl⟩

theorem callable_desugar (machine : Machine) (steps id : Nat) :
    (machine.desugar steps).callable id = (machine.callable id).desugar := by
  simp only [callable, desugar, Array.getD_eq_getD_getElem?, Array.getElem?_map]
  cases machine.functions[id]? with
  | none => rfl
  | some callable => rfl

theorem newFunction_desugar (machine : Machine) (steps : Nat) (callable : Callable) :
    (machine.desugar steps).newFunction callable.desugar =
      ((machine.newFunction callable).1, (machine.newFunction callable).2.desugar steps) := by
  simp only [newFunction, desugar, Array.size_map, Array.map_push]

theorem begin_desugar {machine : Machine} (silent : machine.verbosity = 0) (steps : Nat)
    (summary : String) : (machine.desugar steps).begin summary = machine.desugar (steps + 1) := by
  have quiet : ¬ 0 < (machine.desugar steps).verbosity := Nat.not_lt_of_le (Nat.le_of_eq silent)
  unfold begin
  simp only [if_neg quiet]
  rfl

theorem begin_silent {machine : Machine} (silent : machine.verbosity = 0) (summary : String) :
    machine.begin summary = { machine with steps := machine.steps + 1 } := by
  unfold begin
  simp only [silent, Nat.lt_irrefl, if_false]

end Machine

/-- Failures of one kind, with the same value in the same function. Only the name of a stray part
may be another one. -/
inductive Failure.Corresponds : Failure → Failure → Prop where
  | same (failure : Failure) : Corresponds failure failure
  | stray (place : Place) (nodeName nodeName' : String) :
      Corresponds (.stray place nodeName) (.stray place nodeName')

theorem corresponds_leaving {failure failure' : Failure} (name : String)
    (failures : failure.Corresponds failure') :
    (failure.leaving name).Corresponds (failure'.leaving name) := by
  cases failures with
  | same => exact .same _
  | stray place nodeName nodeName' => exact .stray place nodeName nodeName'

theorem corresponds_misuse {failure failure' : Failure}
    (failures : failure.Corresponds failure') :
    failure = failure' ∨ (failure.isMisuse = false ∧ failure'.isMisuse = false) := by
  cases failures with
  | same => exact .inl rfl
  | stray => exact .inr ⟨rfl, rfl⟩

/-- Just the function without sugar answers to a function. -/
theorem alike_desugar {function function' : Callable} :
    Callable.Alike (fun body plain => plain = Block.desugar body) function function' ↔
      function' = function.desugar := by
  constructor
  · intro alike
    cases alike with
    | closure same =>
        cases same
        rfl
    | native => rfl
  · rintro rfl
    cases function with
    | closure => exact .closure rfl
    | native name native => exact .native name native

/-- A machine alongside the one without sugar. -/
def Bond.sugar : Bond where
  machines := Machine.Corresponds
  failures := Failure.Corresponds
  bodies body plain := plain = Block.desugar body
  places _ := True
  failures_refl := .same
  failures_leaving := corresponds_leaving
  failures_misuse := corresponds_misuse
  agrees := by
    rintro machine _ ⟨silent, steps, rfl⟩
    exact ⟨rfl, rfl, rfl, rfl, rfl⟩
  callable := by
    rintro machine _ id ⟨silent, steps, rfl⟩
    exact alike_desugar.mpr (Machine.callable_desugar machine steps id)
  writeGlobals := by
    rintro machine _ globals ⟨silent, steps, rfl⟩
    exact ⟨silent, steps, rfl⟩
  writeCells := by
    rintro machine _ cells ⟨silent, steps, rfl⟩
    exact ⟨silent, steps, rfl⟩
  newTable := by
    rintro machine _ ⟨silent, steps, rfl⟩
    exact ⟨silent, steps, rfl⟩
  setTable := by
    rintro machine _ key id value ⟨silent, steps, rfl⟩ _
    exact ⟨silent, steps, rfl⟩
  newFunction := by
    rintro machine _ function function' ⟨silent, steps, rfl⟩ alike
    rw [alike_desugar.mp alike, Machine.newFunction_desugar]
    exact ⟨rfl, silent, steps, rfl⟩
  atDepth := by
    rintro machine _ depth ⟨silent, steps, rfl⟩
    exact ⟨silent, steps, rfl⟩
  address := by
    rintro machine _ addressed ⟨silent, steps, rfl⟩
    exact ⟨silent, steps, rfl⟩
  emit := by
    rintro machine _ event ⟨silent, steps, rfl⟩ _
    exact ⟨silent, steps, rfl⟩

theorem executeBlock_single (call : Caller) (fuel : Nat) (scope : Scope) (statement : Statement) :
    executeBlock call fuel scope [statement] = execute call fuel scope statement := by
  funext machine
  change Eval.bind (execute call fuel scope statement) _ machine = _
  unfold Eval.bind
  cases execute call fuel scope statement machine with
  | done flow after => cases flow <;> rfl
  | failed | exhausted => rfl

namespace Bond

section

variable {α : Type}

/-- A statement is counted on both sides. -/
theorem sugar_begin {summary summary' : String} {rest rest' : Unit → Eval α}
    (mirrors : sugar.Mirrors (rest ()) (rest' ())) :
    sugar.Mirrors (Eval.bind (Eval.modify fun machine => machine.begin summary) rest)
      (Eval.bind (Eval.modify fun machine => machine.begin summary') rest') := by
  refine mirrors_bind (mirrors_modify ?_) fun _ => mirrors
  rintro machine _ ⟨silent, steps, rfl⟩
  rw [Machine.begin_desugar silent, Machine.begin_silent silent]
  exact ⟨silent, steps + 1, rfl⟩

/-- A statement is counted on the side without sugar only. -/
theorem sugar_further {summary : String} {body : Eval α} {rest : Unit → Eval α}
    (mirrors : sugar.Mirrors body (rest ())) :
    sugar.Mirrors body (Eval.bind (Eval.modify fun machine => machine.begin summary) rest) := by
  rintro machine _ ⟨silent, steps, rfl⟩
  change sugar.Ends (body machine) (rest () ((machine.desugar steps).begin summary))
  rw [Machine.begin_desugar silent]
  exact mirrors _ _ (Machine.corresponds_desugar silent (steps + 1))

-- The string is evaluated in no step at all, and is always a key.
/-- A name behind a dot is the string in brackets. -/
theorem sugar_dotted {object object' : Eval Value} {rest : Nat → Eval α}
    {rest' : Nat → Key → Eval α} {name : String} (objects : sugar.Mirrors object object')
    (goes : ∀ id, sugar.Mirrors (rest id) (rest' id (.name name))) :
    sugar.Mirrors
      (Eval.bind object fun value => Eval.bind (requireTable value) rest)
      (Eval.bind object' fun value => Eval.bind (requireTable value) fun id =>
        Eval.bind (Eval.pure (.string name)) fun value =>
          Eval.bind (requireKey value) fun key => rest' id key) := by
  apply mirrors_bind objects
  intro value
  apply mirrors_bind (mirrors_requireTable value)
  exact goes

end

section

variable {call call' : Caller} {fuel : Nat}

-- The two sides take the same steps, except where sugar stands: a name behind a dot is a key that
-- is evaluated in one step to itself, and a further branch is a statement of its own.
mutual

theorem sugar_evaluate (calls : sugar.CallsMirror call call') {scope : Scope}
    {expression : Expression} :
    sugar.Mirrors (evaluate call fuel scope expression)
      (evaluate call' fuel scope expression.desugar) := by
  cases expression with
  | number | string | boolean | nil => exact mirrors_pure _
  | name name => exact mirrors_lookup scope name
  | table fields =>
      rw [Expression.desugar, evaluate, evaluate]
      apply mirrors_bind mirrors_newTable
      intro id
      apply mirrors_bind (sugar_fillTable calls)
      intro _
      exact mirrors_pure _
  | binary lhs operation rhs =>
      apply mirrors_bind (sugar_evaluate calls)
      intro left
      apply mirrors_bind (sugar_evaluate calls)
      intro right
      exact mirrors_operate operation left right
  | call callee arguments =>
      apply mirrors_bind (sugar_evaluate calls)
      intro function
      cases function with
      | function id =>
          apply mirrors_bind (sugar_evaluateAll calls)
          intro values
          exact calls _ values
      | _ => exact mirrors_misuse _ _
  | dot target name =>
      apply sugar_dotted (sugar_evaluate calls)
      intro id
      exact mirrors_readTable id (.name name)
  | index target key =>
      apply mirrors_indexed (sugar_evaluate calls) (sugar_evaluate calls)
      intro id key _
      exact mirrors_readTable id key
  | function parameters body => exact mirrors_newFunction (.closure rfl)
  | strayStatement | strayField => exact mirrors_fail (Failure.Corresponds.stray _ _ _)

theorem sugar_evaluateAll (calls : sugar.CallsMirror call call') {scope : Scope}
    {expressions : List Expression} :
    sugar.Mirrors (evaluateAll call fuel scope expressions)
      (evaluateAll call' fuel scope (Expression.desugarAll expressions)) := by
  cases expressions with
  | nil => exact mirrors_pure _
  | cons expression rest =>
      apply mirrors_bind (sugar_evaluate calls)
      intro value
      apply mirrors_bind (sugar_evaluateAll calls)
      intro values
      exact mirrors_pure _

theorem sugar_fillTable (calls : sugar.CallsMirror call call') {scope : Scope}
    {id position : Nat} {fields : List Field} :
    sugar.Mirrors (fillTable call fuel scope id position fields)
      (fillTable call' fuel scope id position (Field.desugarAll fields)) := by
  cases fields with
  | nil => exact mirrors_pure _
  | cons field rest =>
      cases field with
      | positional value =>
          apply mirrors_bind (sugar_evaluate calls)
          intro given
          apply mirrors_bind (mirrors_writeTable given id (.inr ⟨position, True.intro, rfl⟩))
          intro _
          exact sugar_fillTable calls
      | named name value =>
          apply mirrors_bind (sugar_evaluate calls)
          intro given
          apply mirrors_bind (mirrors_writeTable given id (.inl ⟨.string name, rfl⟩))
          intro _
          exact sugar_fillTable calls
      | keyed key value =>
          apply mirrors_bind (sugar_evaluate calls)
          intro asked
          apply mirrors_requireKey asked
          intro key within
          apply mirrors_bind (sugar_evaluate calls)
          intro given
          apply mirrors_bind (mirrors_writeTable given id within)
          intro _
          exact sugar_fillTable calls

theorem sugar_executeBlock (calls : sugar.CallsMirror call call') {scope : Scope}
    {statements : List Statement} :
    sugar.Mirrors (executeBlock call fuel scope statements)
      (executeBlock call' fuel scope (Block.desugar statements)) := by
  cases statements with
  | nil => exact mirrors_pure _
  | cons statement rest =>
      apply mirrors_bind (sugar_execute calls)
      intro flow
      cases flow with
      | next scope => exact sugar_executeBlock calls
      | result value => exact mirrors_pure _

theorem sugar_executeBranches (calls : sugar.CallsMirror call call') {scope : Scope}
    {otherwise : Eval Flow} {plain : Option Block} {branches : List Branch}
    (last : sugar.Mirrors otherwise (executeOtherwise call' fuel scope plain)) :
    sugar.Mirrors (executeBranches call fuel scope otherwise branches)
      (executeOtherwise call' fuel scope (Branch.nest branches plain)) := by
  cases branches with
  | nil => exact last
  | cons branch rest =>
      obtain ⟨condition, body⟩ := branch
      rw [Branch.nest, executeOtherwise, executeBlock_single, Branch.desugar, execute_choose]
      exact sugar_further (mirrors_branch (sugar_evaluate calls) (sugar_executeBlock calls)
        (sugar_executeBranches calls last))

theorem sugar_execute (calls : sugar.CallsMirror call call') {scope : Scope}
    {statement : Statement} :
    sugar.Mirrors (execute call fuel scope statement)
      (execute call' fuel scope statement.desugar) := by
  cases statement with
  | assign target value =>
      rw [Statement.desugar, execute, execute]
      apply sugar_begin
      apply mirrors_bind (sugar_evaluate calls)
      intro given
      cases target with
      | name name =>
          apply mirrors_bind (mirrors_assignName _ _ _)
          intro after
          exact mirrors_pure _
      | dot target name =>
          apply sugar_dotted (sugar_evaluate calls)
          intro id
          have within : (Key.name name).Within sugar.places := .inl ⟨.string name, rfl⟩
          exact mirrors_bind (mirrors_writeTable given id within) fun _ => mirrors_pure _
      | index target key =>
          apply mirrors_indexed (sugar_evaluate calls) (sugar_evaluate calls)
          intro id key within
          exact mirrors_bind (mirrors_writeTable given id within) fun _ => mirrors_pure _
      | _ => exact mirrors_fail (Failure.Corresponds.stray _ _ _)
  | declare name value =>
      rw [Statement.desugar, execute, execute]
      apply sugar_begin
      apply mirrors_bind (sugar_evaluate calls)
      intro given
      apply mirrors_bind (mirrors_bindName _ _ _)
      intro after
      exact mirrors_pure _
  | evaluate value | returns value =>
      rw [Statement.desugar, execute, execute]
      apply sugar_begin
      apply mirrors_bind (sugar_evaluate calls)
      intro given
      exact mirrors_pure _
  | function name parameters body =>
      rw [Statement.desugar, execute, execute]
      apply sugar_begin
      apply mirrors_bind (mirrors_newFunction (.closure rfl))
      intro function
      apply mirrors_bind (mirrors_putGlobal _ _)
      intro _
      exact mirrors_pure _
  | choose first others otherwise =>
      obtain ⟨condition, body⟩ := first
      rw [Statement.desugar, Branch.desugar, execute_choose, execute_choose]
      apply sugar_begin
      apply mirrors_branch (sugar_evaluate calls) (sugar_executeBlock calls)
      refine sugar_executeBranches calls ?_
      cases otherwise with
      | none => exact mirrors_pure _
      | some body => exact sugar_executeBlock calls
  | loop counter start limit step body =>
      rw [Statement.desugar, execute, execute]
      apply sugar_begin
      apply mirrors_bind (sugar_evaluate calls)
      intro value
      apply mirrors_bind (mirrors_requireNumber value _)
      intro start
      apply mirrors_bind (sugar_evaluate calls)
      intro value
      apply mirrors_bind (mirrors_requireNumber value _)
      intro limit
      have inside (inner : Scope) : sugar.Mirrors (executeBlock call fuel inner body)
          (executeBlock call' fuel inner (Block.desugar body)) := sugar_executeBlock calls
      have goes (step : Float) :=
        mirrors_leave scope (mirrors_rounds counter limit step inside fuel start scope)
      cases step with
      | none => exact mirrors_bind (mirrors_pure _) goes
      | some step =>
          apply mirrors_bind (sugar_evaluate calls)
          intro value
          apply mirrors_bind (mirrors_requireNumber value _)
          exact goes
  | strayExpression | strayField =>
      rw [Statement.desugar, execute, execute]
      exact sugar_begin (mirrors_fail (Failure.Corresponds.stray _ _ _))

end

end

theorem sugar_run (fuel : Nat) (program : Block) :
    sugar.Mirrors (run fuel program) (run fuel (Block.desugar program)) := by
  have calls : sugar.CallsMirror (apply fuel) (apply fuel) := by
    apply mirrors_apply
    rintro call call' fuel scope body _ calls rfl
    exact sugar_executeBlock calls
  apply mirrors_bind (sugar_executeBlock calls)
  intro flow
  exact mirrors_pure _

end Bond

theorem mirrors_run (fuel : Nat) (program : Block) (machine : Machine) (steps : Nat)
    (silent : machine.verbosity = 0) : Bond.sugar.Ends (run fuel program machine)
      (run fuel (Block.desugar program) (machine.desugar steps)) :=
  Bond.sugar_run fuel program _ _ (Machine.corresponds_desugar silent steps)

/-- The answers are the same value, or corresponding failures. -/
inductive Answers : Except Failure Value → Except Failure Value → Prop where
  | ok (value : Value) : Answers (.ok value) (.ok value)
  | error {failure failure' : Failure} (failures : failure.Corresponds failure') :
      Answers (.error failure) (.error failure')

/-- On corresponding machines, a program and the one without sugar have no answer to any fuel, or
corresponding answers, and the machines that they leave correspond. -/
theorem desugar_corresponds {session plain : Session} (fuel : Nat) (program : Block)
    (machines : session.machine.Corresponds plain.machine) :
    (session.run fuel program = none ∧ plain.run fuel (Block.desugar program) = none) ∨
    ∃ answer answer' next next', session.run fuel program = some (answer, next) ∧
      plain.run fuel (Block.desugar program) = some (answer', next') ∧ Answers answer answer' ∧
      next.machine.Corresponds next'.machine := by
  obtain ⟨silent, steps, same⟩ := machines
  have ends := mirrors_run fuel program session.machine steps silent
  unfold Session.run
  rw [same]
  generalize run fuel program session.machine = outcome at ends
  generalize run fuel (Block.desugar program) (session.machine.desugar steps) = outcome' at ends
  cases ends with
  | done value machines => exact .inr ⟨_, _, _, _, rfl, rfl, .ok value, machines⟩
  | failed failures machines => exact .inr ⟨_, _, _, _, rfl, rfl, .error failures, machines⟩
  | exhausted => exact .inl ⟨rfl, rfl⟩

/-- A further branch is a statement more without sugar. -/
theorem desugar_corresponds_branch :
    let program : Block := [.choose (.mk .nil [])
      [.mk (.boolean true) [.assign (.name "t") (.table [.named "k" (.string "v")]),
        .returns (.dot (.name "t") "k")]] none]
    let plain : Block := [.choose (.mk .nil []) []
      (some [.choose (.mk (.boolean true) [
        .assign (.name "t") (.table [.keyed (.string "k") (.string "v")]),
        .returns (.index (.name "t") (.string "k"))]) [] none])]
    Block.desugar program = plain ∧ (Session.bare 0).machine.Corresponds (Session.bare 0).machine ∧
    ∃ next next', (Session.bare 0).run 1 program = some (.ok (.string "v"), next) ∧
      (Session.bare 0).run 1 plain = some (.ok (.string "v"), next') ∧ next.machine.steps = 3 ∧
      next'.machine.steps = 4 ∧ next.machine.Corresponds next'.machine := by
  intro program plain
  have machines : (Session.bare 0).machine.Corresponds (Session.bare 0).machine :=
    ⟨rfl, 0, by simp [Session.bare, Machine.desugar]⟩
  refine ⟨rfl, machines, _, _, rfl, rfl, rfl, rfl, ?_⟩
  rcases desugar_corresponds 1 program machines with ⟨none, _⟩ | ⟨_, _, _, _, ran, ran', _, ends⟩
  · cases none
  · cases ran
    cases ran'
    exact ends

end LuaCore
