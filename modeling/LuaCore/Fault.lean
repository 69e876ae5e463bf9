import LuaCore.Text.Quoted
import LuaCore.Token

/-!
What can be wrong with a tree whose tokens are in order: a literal that stands for nothing, or a
target that nothing can be assigned to.
-/

namespace LuaCore

inductive Fault where
  /-- An escape by a digit that has no place in a positional numeral. -/
  | escape (digit : Char)
  /-- A hexadecimal numeral beyond the finite numbers. -/
  | numeral
  /-- An assignment to an expression of another kind, in a statement that starts somewhere. -/
  | target (nodeName : String) (start : Position)
  deriving DecidableEq

/-- The published name of a fault by itself. -/
def Fault.name : Fault → String
  | escape _ => "ValueError"
  | numeral => "OverflowError"
  | target .. => "LuaParseError"

/-- What is wrong, by itself. -/
def Fault.reason : Fault → String
  | escape digit =>
      "invalid literal for int() with base 10: " ++ String.ofList (Text.quote [digit])
  | numeral => "int too large to convert to float"
  | target nodeName _ => "Cannot assign to `" ++ nodeName ++ "` expression."

end LuaCore
