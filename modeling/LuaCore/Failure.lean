import LuaCore.Value

/-!
Why a program stops. A misuse is an error of the script: a value of the wrong type in some place,
with the innermost script function that it happened in. The other failures are the host's: a tree
with a stray part, or a native that gives up.
-/

namespace LuaCore

/-- The places that demand a value of a certain type. -/
inductive Misuse where
  | index
  | call
  | arithmetic
  | loopStart
  | loopLimit
  | loopStep
  deriving DecidableEq

/-- The places where a tree can hold a stray part. -/
inductive Place where
  | statement
  | target
  | expression
  deriving DecidableEq

inductive Failure where
  | misuse (place : Misuse) (value : Value) (function : Option String)
  | stray (place : Place) (nodeName : String)
  | native (message : String)
  deriving DecidableEq

/-- The published name of a misuse. -/
def Misuse.name : Misuse → String
  | .index => "InvalidIndex"
  | .call => "InvalidCall"
  | .arithmetic => "InvalidArithmetic"
  | .loopStart => "BadForInitialValue"
  | .loopLimit => "BadForLimit"
  | .loopStep => "BadForStep"

def Misuse.message (place : Misuse) (typeName : String) : String :=
  match place with
  | .index => "attempt to index a " ++ typeName ++ " value"
  | .call => "attempt to call a " ++ typeName ++ " value"
  | .arithmetic => "attempt to perform arithmetic on a " ++ typeName ++ " value"
  | .loopStart => "'for' initial value must be a number, got " ++ typeName
  | .loopLimit => "'for' limit must be a number, got " ++ typeName
  | .loopStep => "'for' step must be a number, got " ++ typeName

def Place.name : Place → String
  | .statement => "statement"
  | .target => "assignment target"
  | .expression => "expression"

namespace Failure

/-- The published name of a failure. -/
def name : Failure → String
  | misuse place _ _ => place.name
  | stray _ _ => "NotImplementedError"
  | native _ => "RuntimeError"

def message : Failure → String
  | misuse place value _ => place.message value.typeName
  | stray place nodeName => "Unexpected " ++ place.name ++ " `" ++ nodeName ++ "` from parser."
  | native message => message

/-- A misuse that has no function yet gets the one it leaves. -/
def leaving (function : String) : Failure → Failure
  | misuse place value none => misuse place value (some function)
  | failure => failure

/-- Whether the script itself is at fault. -/
def isMisuse : Failure → Bool
  | misuse .. => true
  | _ => false

end Failure

end LuaCore
