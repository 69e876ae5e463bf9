import LuaCore.Token

/-!
Parse trees: what a reader makes of a sequence of tokens. Literals are kept as they are written,
an omitted value is kept as omitted, and an assignment may have any expression as its target.
Parentheses and semicolons leave no node.
-/

namespace LuaCore.Tree

mutual

inductive Expression where
  | number (text : String)
  | string (text : String)
  | boolean (value : Bool)
  | nil
  | name (name : String)
  | table (fields : List Field)
  | negate (operand : Expression)
  | binary (lhs : Expression) (operation : Operation) (rhs : Expression)
  | call (callee : Expression) (arguments : List Expression)
  | dot (target : Expression) (name : String)
  | index (target key : Expression)
  | function (parameters : List String) (body : List Statement)

inductive Field where
  | positional (value : Expression)
  | named (name : String) (value : Expression)
  | keyed (key value : Expression)

inductive Branch where
  | mk (condition : Expression) (body : List Statement)

/-- A statement. An assignment remembers where it starts. -/
inductive Statement where
  | assign (start : Position) (target value : Expression)
  | declare (name : String) (value : Option Expression)
  | evaluate (expression : Expression)
  | returns (value : Option Expression)
  | function (name : String) (parameters : List String) (body : List Statement)
  | choose (first : Branch) (others : List Branch) (otherwise : Option (List Statement))
  | loop (counter : String) (start limit : Expression) (step : Option Expression)
      (body : List Statement)

end

abbrev Block := List Statement

end LuaCore.Tree
