import LuaCore.Native
import LuaCore.Arithmetic
import LuaCore.Program

/-!
The evaluator. Expressions and statements are evaluated by recursion on the tree; calls of script
functions go through `call` and loops count down fuel, so that fuel bounds the depth of calls and
the rounds of each loop. The knot is tied by `apply`, which spends one unit on each call.
-/

namespace LuaCore

/-- How a statement ends: the next one runs in a scope, or the activation has its result. -/
inductive Flow where
  | next (scope : Scope)
  | result (value : Value)

/-- The result of an activation whose block ends so. -/
def Flow.value : Flow → Value
  | next _ => .nil
  | result value => value

namespace Evaluation

/-- Binds a name in a scope. -/
def bindName (scope : Scope) (name : String) (value : Value) : Eval Scope :=
  Eval.update fun machine =>
    let next := scope.put machine.cells name value
    (next.1, { machine with cells := next.2 })

/-- Assigns to the innermost binding of a name, which is global unless the scope binds it. -/
def assignName (scope : Scope) (name : String) (value : Value) : Eval Scope :=
  if scope.has name then bindName scope name value
  else do
    Eval.modify fun machine => machine.putGlobal name value
    return scope

def newFunction (callable : Callable) : Eval Value :=
  Eval.update fun machine =>
    let next := machine.newFunction callable
    (.function next.1, next.2)

def newTable : Eval Nat :=
  Eval.update Machine.newTable

def requireTable : Value → Eval Nat
  | .table id => return id
  | value => Eval.misuse .index value

def requireKey (value : Value) : Eval Key :=
  match value.toKey? with
  | some key => return key
  | none => Eval.misuse .index value

def requireNumber (place : Misuse) : Value → Eval Float
  | .number x => return x
  | value => Eval.misuse place value

def readTable (id : Nat) (key : Key) : Eval Value :=
  Eval.read fun machine => (machine.table id).get key

def writeTable (id : Nat) (key : Key) (value : Value) : Eval Unit :=
  Eval.modify fun machine => machine.setTable id key value

def operate (operation : Operation) (lhs rhs : Value) : Eval Value :=
  match binary operation lhs rhs with
  | .ok value => return value
  | .error operand => Eval.misuse .arithmetic operand

/-- Rounds of a loop: while the counter is at most the limit, the name is bound to it and the body
runs, all rounds in one scope. -/
def rounds (body : Scope → Eval Flow) (name : String) (limit step : Float) :
    (fuel : Nat) → (counter : Float) → Scope → Eval Flow
  | 0, _, _ => Eval.exhaust
  | fuel + 1, counter, scope =>
      if counter ≤ limit then do
        let scope ← bindName scope name (.number counter)
        match ← body scope with
        | .next scope => rounds body name limit step fuel (counter + step) scope
        | .result value => return .result value
      else return .next scope

mutual

def evaluate (call : Caller) (fuel : Nat) (scope : Scope) : Expression → Eval Value
  | .number value => return .number value
  | .string value => return .string value
  | .boolean value => return .boolean value
  | .nil => return .nil
  | .name name => Eval.read fun machine => machine.lookup scope name
  | .table fields => do
      let id ← newTable
      fillTable call fuel scope id 1 fields
      return .table id
  | .binary lhs operation rhs => do
      let left ← evaluate call fuel scope lhs
      let right ← evaluate call fuel scope rhs
      operate operation left right
  | .call callee arguments => do
      match ← evaluate call fuel scope callee with
      | .function id =>
          let values ← evaluateAll call fuel scope arguments
          call (.function id) values
      | other => Eval.misuse .call other
  | .dot target name => do
      let id ← requireTable (← evaluate call fuel scope target)
      readTable id (.name name)
  | .index target key => do
      let id ← requireTable (← evaluate call fuel scope target)
      let key ← requireKey (← evaluate call fuel scope key)
      readTable id key
  | .function parameters body => newFunction (.closure ⟨none, parameters, body, scope⟩)
  | .strayStatement statement => Eval.fail (.stray .expression statement.nodeName)
  | .strayField field => Eval.fail (.stray .expression field.nodeName)

def evaluateAll (call : Caller) (fuel : Nat) (scope : Scope) :
    List Expression → Eval (List Value)
  | [] => return []
  | expression :: rest => do
      let value ← evaluate call fuel scope expression
      let values ← evaluateAll call fuel scope rest
      return value :: values

/-- Fills a new table field by field. Only positional fields advance the position. -/
def fillTable (call : Caller) (fuel : Nat) (scope : Scope) (id : Nat) :
    (position : Nat) → List Field → Eval Unit
  | _, [] => return ()
  | position, .positional value :: rest => do
      let value ← evaluate call fuel scope value
      writeTable id (.position position) value
      fillTable call fuel scope id (position + 1) rest
  | position, .named name value :: rest => do
      let value ← evaluate call fuel scope value
      writeTable id (.name name) value
      fillTable call fuel scope id position rest
  | position, .keyed key value :: rest => do
      let key ← requireKey (← evaluate call fuel scope key)
      let value ← evaluate call fuel scope value
      writeTable id key value
      fillTable call fuel scope id position rest

/-- Runs statements in order until one gives the result. -/
def executeBlock (call : Caller) (fuel : Nat) (scope : Scope) : List Statement → Eval Flow
  | [] => return .next scope
  | statement :: rest => do
      match ← execute call fuel scope statement with
      | .next scope => executeBlock call fuel scope rest
      | .result value => return .result value

/-- Runs the block of the first branch whose condition holds, in the enclosing scope. -/
def executeBranches (call : Caller) (fuel : Nat) (scope : Scope) (otherwise : Eval Flow) :
    List Branch → Eval Flow
  | [] => otherwise
  | .mk condition body :: rest => do
      let value ← evaluate call fuel scope condition
      if value.isTruthy then executeBlock call fuel scope body
      else executeBranches call fuel scope otherwise rest

/-- Runs one statement. An assignment evaluates its value before its target. -/
def execute (call : Caller) (fuel : Nat) (scope : Scope) (statement : Statement) : Eval Flow :=
  Eval.bind (Eval.modify fun machine => machine.begin statement.summary) fun _ =>
  match statement with
  | .assign target value => do
      let value ← evaluate call fuel scope value
      match target with
      | .name name => return .next (← assignName scope name value)
      | .dot target name => do
          let id ← requireTable (← evaluate call fuel scope target)
          writeTable id (.name name) value
          return .next scope
      | .index target key => do
          let id ← requireTable (← evaluate call fuel scope target)
          let key ← requireKey (← evaluate call fuel scope key)
          writeTable id key value
          return .next scope
      | other => Eval.fail (.stray .target other.nodeName)
  | .declare name value => do
      let value ← evaluate call fuel scope value
      return .next (← bindName scope name value)
  | .evaluate expression => do
      let _ ← evaluate call fuel scope expression
      return .next scope
  | .returns value => return .result (← evaluate call fuel scope value)
  | .function name parameters body => do
      let function ← newFunction (.closure ⟨some name, parameters, body, scope⟩)
      Eval.modify fun machine => machine.putGlobal name function
      return .next scope
  | .choose (.mk condition body) others otherwise => do
      let value ← evaluate call fuel scope condition
      if value.isTruthy then executeBlock call fuel scope body
      else
        executeBranches call fuel scope
          (match otherwise with
            | some body => executeBlock call fuel scope body
            | none => return .next scope)
          others
  | .loop counter start limit step body => do
      let start ← requireNumber .loopStart (← evaluate call fuel scope start)
      let limit ← requireNumber .loopLimit (← evaluate call fuel scope limit)
      let step ← match step with
        | some step => do requireNumber .loopStep (← evaluate call fuel scope step)
        | none => pure 1
      match ← rounds (fun scope => executeBlock call fuel scope body) counter limit step fuel start
          scope with
      | .next _ => return .next scope
      | .result value => return .result value
  | .strayExpression expression => Eval.fail (.stray .statement expression.nodeName)
  | .strayField field => Eval.fail (.stray .statement field.nodeName)

end

/-- A scope of an activation: the captured names, and the parameters with their arguments. -/
def enter (closure : Closure) (arguments : List Value) : Eval Scope :=
  Eval.update fun machine =>
    let next := closure.capture.putAll machine.cells (Closure.bind closure.parameters arguments)
    (next.1, { machine with cells := next.2, depth := machine.depth + 1 })

/-- Calls a function with evaluated arguments. -/
def apply : (fuel : Nat) → Caller
  | 0, _, _ => Eval.exhaust
  | fuel + 1, function, arguments =>
      match function with
      | .function id => do
          match ← Eval.read fun machine => machine.callable id with
          | .native _ native => native.run (apply fuel) arguments
          | .closure closure =>
              let scope ← enter closure arguments
              let flow ← Eval.finish (executeBlock (apply fuel) fuel scope closure.body)
                (Failure.leaving closure.errorName)
                fun machine => { machine with depth := machine.depth - 1 }
              return flow.value
      | other => Eval.misuse .call other

/-- Runs a program in a fresh scope and yields its result, or nil. -/
def run (fuel : Nat) (program : Block) : Eval Value := do
  let flow ← executeBlock (apply fuel) fuel {} program
  return flow.value

end Evaluation

end LuaCore
