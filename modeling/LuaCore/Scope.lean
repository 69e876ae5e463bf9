import LuaCore.Value

/-!
Scopes. A scope lists the names it binds, in binding order, each with the cell that holds the
name's value. A copy of a scope binds the same cells, so that a value put through one is read
through the other, while names bound later belong to one of them only.
-/

namespace LuaCore

abbrev Cells := Array Value

structure Scope where
  bindings : List (String × Nat) := []
  deriving DecidableEq

namespace Scope

def cell? (scope : Scope) (name : String) : Option Nat :=
  scope.bindings.lookup name

def has (scope : Scope) (name : String) : Bool :=
  (scope.cell? name).isSome

def names (scope : Scope) : List String :=
  scope.bindings.map Prod.fst

/-- The value of a name, if the scope binds it. -/
def get? (scope : Scope) (cells : Cells) (name : String) : Option Value :=
  (scope.cell? name).map fun cell => cells.getD cell .nil

/-- Overwrites the bound cell in place, or binds the name to a new one. -/
def put (scope : Scope) (cells : Cells) (name : String) (value : Value) : Scope × Cells :=
  match scope.cell? name with
  | some cell => (scope, cells.setIfInBounds cell value)
  | none => (⟨scope.bindings ++ [(name, cells.size)]⟩, cells.push value)

/-- Puts several names in order. -/
def putAll (scope : Scope) (cells : Cells) : List (String × Value) → Scope × Cells
  | [] => (scope, cells)
  | (name, value) :: rest =>
      let next := scope.put cells name value
      next.1.putAll next.2 rest

end Scope

/-- A growing family of scopes over one set of cells, the first one empty. -/
structure Scopes where
  scopes : List Scope := [{}]
  cells : Cells := #[]

namespace Scopes

inductive Operation where
  | put (scope : Nat) (name : String) (value : Value)
  | has (scope : Nat) (name : String)
  | get (scope : Nat) (name : String)
  | clone (scope : Nat)

inductive Answer where
  | nothing
  | truth (value : Bool)
  | unbound
  | value (value : Value)
  | scope (index : Nat)

def scope (family : Scopes) (index : Nat) : Scope :=
  family.scopes.getD index {}

/-- One operation on a scope of the family. A clone is added at the end. -/
def apply (family : Scopes) : Operation → Answer × Scopes
  | .put index name value =>
      let next := (family.scope index).put family.cells name value
      (.nothing, ⟨family.scopes.set index next.1, next.2⟩)
  | .has index name => (.truth ((family.scope index).has name), family)
  | .get index name =>
      match (family.scope index).get? family.cells name with
      | some value => (.value value, family)
      | none => (.unbound, family)
  | .clone index =>
      (.scope family.scopes.length, { family with scopes := family.scopes ++ [family.scope index] })

end Scopes

end LuaCore
