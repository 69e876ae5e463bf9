import LuaCore.Key
import LuaCore.Double.Text

/-!
Values. Tables and functions are references into the store of a machine, so that two copies of
one reference share what it refers to. A value that serves as a table key is first taken to its
key: a whole number to itself, any other number to the text that reads back as it.
-/

namespace LuaCore

inductive Value where
  | nil
  | boolean (value : Bool)
  | number (value : Float)
  | string (text : String)
  | table (id : Nat)
  | function (id : Nat)
  deriving DecidableEq

namespace Value

def typeName : Value → String
  | nil => "nil"
  | boolean _ => "boolean"
  | number _ => "number"
  | string _ => "string"
  | table _ => "table"
  | function _ => "function"

/-- Everything but nil and false. -/
def isTruthy : Value → Bool
  | nil | boolean false => false
  | _ => true

def isNumber : Value → Bool
  | number _ => true
  | _ => false

/-- The key of a number. -/
def numberKey (x : Float) : Key :=
  match Double.toInt? x with
  | some n => .integer n
  | none => .name (String.ofList (Double.exact x))

/-- The key that a value stands for; only numbers and strings stand for one. -/
def toKey? : Value → Option Key
  | number x => some (numberKey x)
  | string text => some (.name text)
  | _ => none

end Value

end LuaCore
