import LuaCore.Operation

/-!
Program trees. A tree may hold an expression where a statement is expected, or the other way
round: such a stray part has a constructor of its own, so that the evaluator can refuse it. The
reader never builds one.
-/

namespace LuaCore

mutual

inductive Expression where
  | number (value : Float)
  | string (value : String)
  | boolean (value : Bool)
  | nil
  | name (name : String)
  | table (fields : List Field)
  | binary (lhs : Expression) (operation : Operation) (rhs : Expression)
  | call (callee : Expression) (arguments : List Expression)
  | dot (target : Expression) (name : String)
  | index (target key : Expression)
  | function (parameters : List String) (body : List Statement)
  | strayStatement (statement : Statement)
  | strayField (field : Field)

/-- An entry of a table constructor, with a key by position, by name or by expression. -/
inductive Field where
  | positional (value : Expression)
  | named (name : String) (value : Expression)
  | keyed (key value : Expression)

/-- A condition and the block it guards. -/
inductive Branch where
  | mk (condition : Expression) (body : List Statement)

inductive Statement where
  | assign (target value : Expression)
  | declare (name : String) (value : Expression)
  | evaluate (expression : Expression)
  | returns (value : Expression)
  | function (name : String) (parameters : List String) (body : List Statement)
  | choose (first : Branch) (others : List Branch) (otherwise : Option (List Statement))
  | loop (counter : String) (start limit : Expression) (step : Option Expression)
      (body : List Statement)
  | strayExpression (expression : Expression)
  | strayField (field : Field)

end

abbrev Block := List Statement

/-- The published name of a field's node. -/
def Field.nodeName : Field → String
  | _ => "TableField"

mutual

/-- The published name of an expression's node; a stray part keeps its own. -/
def Expression.nodeName : Expression → String
  | .number .. => "Number"
  | .string .. => "String"
  | .boolean .. => "Boolean"
  | .nil => "Nil"
  | .name .. => "Variable"
  | .table .. => "TableConstructor"
  | .binary .. => "Binary"
  | .call .. => "Call"
  | .dot .. => "Dot"
  | .index .. => "Index"
  | .function .. => "FunctionLiteral"
  | .strayStatement statement => statement.nodeName
  | .strayField field => field.nodeName

/-- The published name of a statement's node. -/
def Statement.nodeName : Statement → String
  | .assign .. => "Assignment"
  | .declare .. => "Local"
  | .evaluate .. => "ExpressionStatement"
  | .returns .. => "Return"
  | .function .. => "FunctionDeclaration"
  | .choose .. => "If"
  | .loop .. => "NumericFor"
  | .strayExpression expression => expression.nodeName
  | .strayField field => field.nodeName

end

/-- Whether a value can be assigned to an expression. -/
def Expression.isTarget : Expression → Bool
  | .name .. | .dot .. | .index .. => true
  | _ => false

end LuaCore
