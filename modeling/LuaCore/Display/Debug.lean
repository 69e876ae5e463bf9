import LuaCore.Display.Item

/-!
The text of a value for diagnostics: every string in quotes with its unprintable characters
escaped, every number in full, tables and functions by their kind and contents.
-/

namespace LuaCore.Display

def debugKey : Key → List Char
  | .integer n => (toString n).toList
  | .name text => Text.quote text.toList

def debugCallable : Callable → List Char
  | .closure closure =>
      ("<function " ++ closure.shownName?.getD "?" ++ "(" ++
        String.intercalate ", " closure.parameters ++ ")>").toList
  | .native name _ => ("<native function " ++ name ++ ">").toList

/-- The text of a value inside of tables, of which `unseen` are not. -/
def debugWithin (machine : Machine) (unseen : List Nat) (value : Value) : List Char :=
  match value with
  | .nil => "nil".toList
  | .boolean value => (if value then "True" else "False").toList
  | .number x => Double.exact x
  | .string text => Text.quote text.toList
  | .function id => debugCallable (machine.callable id)
  | .table id =>
      if _member : id ∈ unseen then
        "Table(\x7b".toList ++
          separated [',', ' '] ((machine.table id).entries.map fun entry =>
            debugKey entry.1 ++ [':', ' '] ++ debugWithin machine (unseen.erase id) entry.2) ++
          "\x7d)".toList
      else "Table(\x7b...\x7d)".toList
termination_by unseen.length
decreasing_by
  have positive := List.length_pos_of_mem _member
  rw [List.length_erase_of_mem _member]
  omega

def debug (machine : Machine) (value : Value) : List Char :=
  debugWithin machine (List.range machine.tables.size) value

end LuaCore.Display
