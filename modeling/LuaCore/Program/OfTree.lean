import LuaCore.Literal
import LuaCore.Program
import LuaCore.Tree

/-!
Programs from parse trees. Literals are read, omitted values become nil, and a minus sign becomes
a part of the number behind it or a product with -1. The first fault is reported: parts come before
the whole that they belong to, and earlier parts before later ones.
-/

namespace LuaCore

/-- The negation of an expression. A number takes the sign itself. -/
def Expression.negate : Expression → Expression
  | .number value => .number (-value)
  | operand => .binary (.number (-1)) .multiply operand

/-- An assignment, if its target can be assigned to. -/
def Statement.assign? (start : Position) (target value : Expression) : Except Fault Statement :=
  if target.isTarget then .ok (.assign target value)
  else .error (.target target.nodeName start)

mutual

def Expression.ofTree : Tree.Expression → Except Fault Expression
  | .number text => return .number (← Literal.number text)
  | .string text => return .string (← Literal.string text)
  | .boolean value => return .boolean value
  | .nil => return .nil
  | .name name => return .name name
  | .table fields => return .table (← Field.ofTrees fields)
  | .negate operand => return (← Expression.ofTree operand).negate
  | .binary lhs operation rhs => do
      let lhs ← Expression.ofTree lhs
      let rhs ← Expression.ofTree rhs
      return .binary lhs operation rhs
  | .call callee arguments => do
      let callee ← Expression.ofTree callee
      let arguments ← Expression.ofTrees arguments
      return .call callee arguments
  | .dot target name => return .dot (← Expression.ofTree target) name
  | .index target key => do
      let target ← Expression.ofTree target
      let key ← Expression.ofTree key
      return .index target key
  | .function parameters body => return .function parameters (← Block.ofTree body)

def Expression.ofTrees : List Tree.Expression → Except Fault (List Expression)
  | [] => return []
  | tree :: rest => do
      let expression ← Expression.ofTree tree
      let others ← Expression.ofTrees rest
      return expression :: others

def Expression.ofTree? : Option Tree.Expression → Except Fault (Option Expression)
  | none => return none
  | some tree => return some (← Expression.ofTree tree)

def Field.ofTree : Tree.Field → Except Fault Field
  | .positional value => return .positional (← Expression.ofTree value)
  | .named name value => return .named name (← Expression.ofTree value)
  | .keyed key value => do
      let key ← Expression.ofTree key
      let value ← Expression.ofTree value
      return .keyed key value

def Field.ofTrees : List Tree.Field → Except Fault (List Field)
  | [] => return []
  | tree :: rest => do
      let field ← Field.ofTree tree
      let others ← Field.ofTrees rest
      return field :: others

def Branch.ofTree : Tree.Branch → Except Fault Branch
  | .mk condition body => do
      let condition ← Expression.ofTree condition
      let body ← Block.ofTree body
      return .mk condition body

def Branch.ofTrees : List Tree.Branch → Except Fault (List Branch)
  | [] => return []
  | tree :: rest => do
      let branch ← Branch.ofTree tree
      let others ← Branch.ofTrees rest
      return branch :: others

def Statement.ofTree : Tree.Statement → Except Fault Statement
  | .assign start target value => do
      let target ← Expression.ofTree target
      let value ← Expression.ofTree value
      Statement.assign? start target value
  | .declare name value => return .declare name ((← Expression.ofTree? value).getD .nil)
  | .evaluate expression => return .evaluate (← Expression.ofTree expression)
  | .returns value => return .returns ((← Expression.ofTree? value).getD .nil)
  | .function name parameters body => return .function name parameters (← Block.ofTree body)
  | .choose first others otherwise => do
      let first ← Branch.ofTree first
      let others ← Branch.ofTrees others
      let otherwise ← Block.ofTree? otherwise
      return .choose first others otherwise
  | .loop counter start limit step body => do
      let start ← Expression.ofTree start
      let limit ← Expression.ofTree limit
      let step ← Expression.ofTree? step
      let body ← Block.ofTree body
      return .loop counter start limit step body

def Block.ofTree : List Tree.Statement → Except Fault (List Statement)
  | [] => return []
  | tree :: rest => do
      let statement ← Statement.ofTree tree
      let others ← Block.ofTree rest
      return statement :: others

def Block.ofTree? : Option (List Tree.Statement) → Except Fault (Option (List Statement))
  | none => return none
  | some body => return some (← Block.ofTree body)

end

end LuaCore
