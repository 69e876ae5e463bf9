import LuaCore.Session

/-!
Hosts: what the natives do is left to a host, which may give each function object a behaviour of its
own. Programs run with a host as they do with the natives that there are, and these are one host.
-/

namespace LuaCore

/-- What a native does when the function object that it is behind is called. -/
abbrev Host := (id : Nat) → Native → Caller → List Value → Eval Value

/-- The natives as they are, whatever object they are behind. -/
def Host.own : Host :=
  fun _ native => native.run

namespace Evaluation

/-- Calls a function with evaluated arguments, as `apply` does, on a host. -/
def applyWith (host : Host) : (fuel : Nat) → Caller
  | 0, _, _ => Eval.exhaust
  | fuel + 1, function, arguments =>
      match function with
      | .function id => do
          match ← Eval.read fun machine => machine.callable id with
          | .native _ native => host id native (applyWith host fuel) arguments
          | .closure closure =>
              let scope ← enter closure arguments
              let flow ← Eval.finish (executeBlock (applyWith host fuel) fuel scope closure.body)
                (Failure.leaving closure.errorName)
                fun machine => { machine with depth := machine.depth - 1 }
              return flow.value
      | other => Eval.misuse .call other

/-- Runs a program on a host. -/
def runWith (host : Host) (fuel : Nat) (program : Block) : Eval Value := do
  let flow ← executeBlock (applyWith host fuel) fuel {} program
  return flow.value

theorem apply_own (fuel : Nat) : applyWith .own fuel = apply fuel := by
  induction fuel with
  | zero => rfl
  | succ fuel ih =>
      funext function arguments
      cases function with
      | function id =>
          rw [applyWith, apply, ih]
          rfl
      | _ => rfl

theorem run_own (fuel : Nat) : runWith .own fuel = run fuel := by
  funext program
  rw [runWith, run, apply_own]

end Evaluation

namespace Session

/-- Runs the program of a text on a host. -/
def executeWith (host : Host) (fuel : Nat) (source : String) (session : Session) :
    Option (Except RunError Value × Session) :=
  match parse source with
  | .error error => some (.error (.parse error), session)
  | .ok program =>
      match Evaluation.runWith host fuel program session.machine with
      | .done value machine => some (.ok value, session.count machine)
      | .failed failure machine => some (.error (.failure failure), session.count machine)
      | .exhausted => none

theorem execute_own (fuel : Nat) (source : String) (session : Session) :
    session.executeWith .own fuel source = session.execute fuel source := by
  unfold executeWith execute run
  rw [Evaluation.run_own]
  cases parse source with
  | error error => rfl
  | ok program =>
      dsimp only
      cases Evaluation.run fuel program session.machine <;> rfl

end Session

end LuaCore
