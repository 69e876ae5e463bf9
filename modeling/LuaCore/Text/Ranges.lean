/-!
Sets of characters given as closed ranges of code points.
-/

namespace LuaCore.Text

abbrev Ranges := List (Nat × Nat)

/-- A code point belongs to the set when one of the ranges holds it. -/
def Ranges.contains (ranges : Ranges) (point : Nat) : Bool :=
  ranges.any fun range => range.1 ≤ point && point ≤ range.2

end LuaCore.Text
