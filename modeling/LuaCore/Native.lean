import LuaCore.Display.Plain
import LuaCore.Eval

/-!
The host's functions. A native gets its arguments as they are and may call back into the machine
through `call`. Arguments that a native cannot use make it give up.
-/

namespace LuaCore

abbrev Caller := Value → List Value → Eval Value

namespace Native

def firstArgument (arguments : List Value) : Value :=
  arguments.head?.getD .nil

/-- Numbers added from left to right, from zero on. -/
def total? : Float → List Value → Option Float
  | subtotal, [] => some subtotal
  | subtotal, .number x :: rest => total? (subtotal + x) rest
  | _, _ :: _ => none

/-- A line of plain texts with tabs between them. -/
def printedLine (arguments : List Value) (machine : Machine) : Machine :=
  let shown := Display.plainAll arguments machine
  shown.2.emit (.printed (String.intercalate "\t" shown.1 ++ "\n"))

def recordAll (arguments : List Value) (machine : Machine) : Machine :=
  arguments.foldl (fun machine value => machine.emit (.recorded value)) machine

def unsuitable {α : Type} : Eval α :=
  Eval.fail (.native "unsuitable arguments")

def run (call : Caller) (native : Native) (arguments : List Value) : Eval Value :=
  match native with
  | print => do
      Eval.modify (printedLine arguments)
      return .nil
  | type => return .string (firstArgument arguments).typeName
  | tostring => do
      let text ← Eval.update (Display.plain (firstArgument arguments))
      return .string text
  | record => do
      Eval.modify (recordAll arguments)
      return .nil
  | fail => Eval.fail (.native "native failure")
  | twice =>
      match arguments with
      | function :: value :: _ => do
          let once ← call function [value]
          call function [once]
      | _ => unsuitable
  | setKey =>
      match arguments with
      | .table id :: key :: value :: _ =>
          match key.toKey? with
          | some key => do
              Eval.modify fun machine => machine.setTable id key value
              return .table id
          | none => Eval.misuse .index key
      | _ => unsuitable
  | sum =>
      match total? 0 arguments with
      | some result => return .number result
      | none => unsuitable
  | attempt =>
      match arguments with
      | function :: rest =>
          Eval.recover (call function rest) fun failure => .string failure.message
      | [] => unsuitable
  | idle => return .nil

end Native

end LuaCore
