import LuaCore.Evaluation
import LuaCore.Program.Parse

/-!
Sessions: programs run one after the other on one machine, which keeps globals, tables, functions
and counters from run to run. A session also counts the statements of its runs, failed ones
included; a text that does not parse leaves everything as it was.
-/

namespace LuaCore

structure Session where
  machine : Machine := {}
  /-- The statements of all runs, once there has been one. -/
  counted : Option Nat := none

/-- Why a text did not run to its end. -/
inductive RunError where
  | parse (error : ParseError)
  | failure (failure : Failure)

namespace Session

/-- Makes a native known under a name. -/
def define (session : Session) (name : String) (native : Native) : Session :=
  let next := session.machine.newFunction (.native name native)
  { session with machine := next.2.putGlobal name (.function next.1) }

/-- The natives that a program can expect. -/
def library : List (String × Native) :=
  [("print", .print), ("type", .type), ("tostring", .tostring)]

def defineAll (session : Session) (natives : List (String × Native)) : Session :=
  natives.foldl (fun session entry => session.define entry.1 entry.2) session

/-- A session that knows nothing, and traces if it is verbose. -/
def bare (verbosity : Nat) : Session :=
  { machine := { verbosity := verbosity } }

/-- A session with the library. -/
def start (verbosity : Nat) : Session :=
  (bare verbosity).defineAll library

/-- Counts the statements between two states of the machine. -/
def count (session : Session) (machine : Machine) : Session :=
  ⟨machine, some (session.counted.getD 0 + (machine.steps - session.machine.steps))⟩

/-- Runs a program. There is no answer if the fuel does not last. -/
def run (fuel : Nat) (program : Block) (session : Session) :
    Option (Except Failure Value × Session) :=
  match Evaluation.run fuel program session.machine with
  | .done value machine => some (.ok value, session.count machine)
  | .failed failure machine => some (.error failure, session.count machine)
  | .exhausted => none

/-- Runs the program of a text. -/
def execute (fuel : Nat) (source : String) (session : Session) :
    Option (Except RunError Value × Session) :=
  match parse source with
  | .error error => some (.error (.parse error), session)
  | .ok program => (session.run fuel program).map fun next => (next.1.mapError .failure, next.2)

/-- Calls a function, without counting its statements. -/
def apply (fuel : Nat) (function : Value) (arguments : List Value) (session : Session) :
    Option (Except Failure Value × Session) :=
  match Evaluation.apply fuel function arguments session.machine with
  | .done value machine => some (.ok value, { session with machine := machine })
  | .failed failure machine => some (.error failure, { session with machine := machine })
  | .exhausted => none

/-- The value of a global name. -/
def global (session : Session) (name : String) : Value :=
  session.machine.lookup {} name

def globals (session : Session) : List (String × Value) :=
  session.machine.globals.bindings.map fun binding =>
    (binding.1, session.machine.cells.getD binding.2 .nil)

/-- What was let out so far, and the session with an empty transcript. -/
def drain (session : Session) : List Event × Session :=
  (session.machine.transcript.toList,
    { session with machine := { session.machine with transcript := #[] } })

end Session

end LuaCore
