import LuaCore.Value

/-!
Tables: entries in the order in which their keys were last added. Setting a present key keeps its
place, and setting nil removes the entry, so that an absent key and a key set to nil read alike.
-/

namespace LuaCore

structure Table where
  entries : List (Key × Value) := []
  deriving DecidableEq

namespace Table

def get (table : Table) (key : Key) : Value :=
  (table.entries.lookup key).getD .nil

def contains (table : Table) (key : Key) : Bool :=
  (table.entries.lookup key).isSome

def size (table : Table) : Nat :=
  table.entries.length

def keys (table : Table) : List Key :=
  table.entries.map Prod.fst

/-- Overwrites the entry of a key in its place, or adds one at the end. -/
def put (key : Key) (value : Value) : List (Key × Value) → List (Key × Value)
  | [] => [(key, value)]
  | (first, old) :: rest =>
      if first = key then (first, value) :: rest else (first, old) :: put key value rest

def erase (key : Key) (entries : List (Key × Value)) : List (Key × Value) :=
  entries.filter fun entry => entry.1 != key

def set (table : Table) (key : Key) (value : Value) : Table :=
  match value with
  | .nil => ⟨erase key table.entries⟩
  | value => ⟨put key value table.entries⟩

end Table

end LuaCore
