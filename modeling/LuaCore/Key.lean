/-!
Table keys: whole numbers of any size, and names.
-/

namespace LuaCore

inductive Key where
  | integer (value : Int)
  | name (text : String)
  deriving DecidableEq

/-- The key of a position in a sequence. -/
def Key.position (n : Nat) : Key :=
  .integer n

end LuaCore
