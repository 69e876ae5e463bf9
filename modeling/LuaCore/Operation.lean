/-!
The nine binary operators and their written symbols.
-/

namespace LuaCore

inductive Operation where
  | add
  | subtract
  | multiply
  | divide
  | equal
  | greater
  | less
  | greaterOrEqual
  | lessOrEqual
  deriving DecidableEq

namespace Operation

def all : List Operation :=
  [add, subtract, multiply, divide, equal, greater, less, greaterOrEqual, lessOrEqual]

def symbol : Operation → String
  | add => "+"
  | subtract => "-"
  | multiply => "*"
  | divide => "/"
  | equal => "=="
  | greater => ">"
  | less => "<"
  | greaterOrEqual => ">="
  | lessOrEqual => "<="

def ofSymbol? (symbol : String) : Option Operation :=
  all.find? fun operation => operation.symbol = symbol

/-- How tightly an operator binds: comparisons least, then sums, then products. -/
def level : Operation → Nat
  | add | subtract => 1
  | multiply | divide => 2
  | equal | greater | less | greaterOrEqual | lessOrEqual => 0

end Operation

end LuaCore
