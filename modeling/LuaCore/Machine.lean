import LuaCore.Failure
import LuaCore.Program.Summary
import LuaCore.Scope
import LuaCore.Table

/-!
The machine that programs run on: one global scope, a store of cells, tables and functions that
only grows, the counters, and the transcript of everything that a run lets out.
-/

namespace LuaCore

/-- What a host function does when it is called. -/
inductive Native where
  | print
  | type
  | tostring
  | record
  | fail
  | twice
  | setKey
  | sum
  | attempt
  | idle
  deriving DecidableEq

/-- A script function: its parameters and body, and the scope it was made in, as a copy. A
function literal has no name. -/
structure Closure where
  name : Option String
  parameters : List String
  body : Block
  capture : Scope

inductive Callable where
  | closure (closure : Closure)
  | native (name : String) (native : Native)

/-- One executed statement: its number, how many script functions were active, its summary. -/
structure TraceEntry where
  number : Nat
  depth : Nat
  summary : String
  deriving DecidableEq

/-- What a run lets out: printed text, trace entries, and values handed to the host. -/
inductive Event where
  | printed (text : String)
  | traced (entry : TraceEntry)
  | recorded (value : Value)
  deriving DecidableEq

structure Machine where
  globals : Scope := {}
  cells : Cells := #[]
  tables : Array Table := #[]
  functions : Array Callable := #[]
  verbosity : Nat := 0
  steps : Nat := 0
  depth : Nat := 0
  transcript : Array Event := #[]
  /-- The tables and functions whose address was shown, in the order of their first showing. -/
  addressed : Array Value := #[]

namespace Closure

/-- The name that errors and readable output give to a function, if it has one to show. -/
def shownName? (closure : Closure) : Option String :=
  closure.name.filter fun name => name != ""

/-- The name that an error gets when it leaves the function. -/
def errorName (closure : Closure) : String :=
  closure.shownName?.getD "<anonymous>"

/-- Every parameter with its argument: missing ones are nil, extra ones are dropped. -/
def bind : (parameters : List String) → (arguments : List Value) → List (String × Value)
  | [], _ => []
  | name :: rest, [] => (name, .nil) :: bind rest []
  | name :: rest, value :: values => (name, value) :: bind rest values

end Closure

namespace TraceEntry

/-- The line of a trace entry: a grey number, and the summary behind two blanks for each active
function. -/
def render (entry : TraceEntry) : String :=
  let number := toString entry.number
  let padding := String.ofList (List.replicate (3 - number.length) ' ')
  let indent := String.ofList (List.replicate (2 * entry.depth) ' ')
  "\x1b[90m" ++ padding ++ number ++ " :\x1b[0m  " ++ indent ++ entry.summary

end TraceEntry

namespace Machine

def table (machine : Machine) (id : Nat) : Table :=
  machine.tables.getD id {}

def setTable (machine : Machine) (id : Nat) (key : Key) (value : Value) : Machine :=
  { machine with tables := machine.tables.modify id fun table => table.set key value }

/-- The function behind a reference. -/
def callable (machine : Machine) (id : Nat) : Callable :=
  machine.functions.getD id (.native "" .idle)

def newTable (machine : Machine) : Nat × Machine :=
  (machine.tables.size, { machine with tables := machine.tables.push {} })

def newFunction (machine : Machine) (callable : Callable) : Nat × Machine :=
  (machine.functions.size, { machine with functions := machine.functions.push callable })

def putGlobal (machine : Machine) (name : String) (value : Value) : Machine :=
  let next := machine.globals.put machine.cells name value
  { machine with globals := next.1, cells := next.2 }

/-- The value of a name: local first, then global, then nil. -/
def lookup (machine : Machine) (scope : Scope) (name : String) : Value :=
  ((scope.get? machine.cells name).or (machine.globals.get? machine.cells name)).getD .nil

def emit (machine : Machine) (event : Event) : Machine :=
  { machine with transcript := machine.transcript.push event }

/-- Counts a statement, and traces it if the machine is verbose. -/
def begin (machine : Machine) (summary : String) : Machine :=
  let counted := { machine with steps := machine.steps + 1 }
  if 0 < machine.verbosity then counted.emit (.traced ⟨counted.steps, counted.depth, summary⟩)
  else counted

/-- The number shown as the address of a table or function: its place in the order of first
showings, from 1. -/
def address (machine : Machine) (value : Value) : Nat × Machine :=
  match machine.addressed.idxOf? value with
  | some index => (index + 1, machine)
  | none =>
      (machine.addressed.size + 1, { machine with addressed := machine.addressed.push value })

end Machine

end LuaCore
