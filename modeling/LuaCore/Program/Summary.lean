import LuaCore.Program

/-!
One-line summaries of statements, as a trace shows them. Parts that would not fit on a line are
left out behind an ellipsis.
-/

namespace LuaCore

def assignmentSummary : Expression → String
  | .name name => name ++ " = …"
  | .dot _ name => "…." ++ name ++ " = …"
  | _ => "…[…] = …"

def evaluationSummary : Expression → String
  | .call (.name name) arguments => name ++ "(" ++ toString arguments.length ++ " args)"
  | _ => "expression"

/-- How many blocks a choice selects from. -/
def branchCount (others : List Branch) (otherwise : Option Block) : Nat :=
  1 + others.length + if otherwise.isSome then 1 else 0

def Statement.summary : Statement → String
  | .assign target _ => assignmentSummary target
  | .declare name _ => "local " ++ name
  | .evaluate expression => evaluationSummary expression
  | .returns _ => "return …"
  | .function name parameters _ =>
      "function " ++ name ++ "(" ++ String.intercalate ", " parameters ++ ")"
  | .choose _ others otherwise =>
      "if … (" ++ toString (branchCount others otherwise) ++ " branches)"
  | .loop counter _ _ _ _ => "for " ++ counter ++ " = …"
  | statement => statement.nodeName

end LuaCore
