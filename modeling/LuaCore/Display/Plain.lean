import LuaCore.Machine
import LuaCore.Text.Quoted

/-!
The plain text of a value, as a program prints it. A table or function is shown by its address.
-/

namespace LuaCore.Display

/-- An address as eight hexadecimal digits at least. -/
def addressText (kind : String) (address : Nat) : String :=
  kind ++ ": 0x" ++ String.ofList (Text.hex 8 address)

def plain (value : Value) (machine : Machine) : String × Machine :=
  match value with
  | .nil => ("nil", machine)
  | .boolean value => (if value then "true" else "false", machine)
  | .number x => (String.ofList (Double.plain x), machine)
  | .string text => (text, machine)
  | .table _ | .function _ =>
      let next := machine.address value
      (addressText value.typeName next.1, next.2)

/-- The plain texts of several values, in order. -/
def plainAll : List Value → Machine → List String × Machine
  | [], machine => ([], machine)
  | value :: rest, machine =>
      let first := plain value machine
      let others := plainAll rest first.2
      (first.1 :: others.1, others.2)

end LuaCore.Display
