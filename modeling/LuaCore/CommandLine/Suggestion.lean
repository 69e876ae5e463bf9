import LuaCore.CommandLine.Setting
import LuaCore.Text.Similarity

/-!
Suggestions for a long option that does not exist: options whose names are much like the given one.
-/

namespace LuaCore.CommandLine

/-- An option that may have been meant, with how many characters its name shares with the given one
and how long both are together. -/
structure Suggestion where
  name : String
  shared : Nat
  total : Nat

namespace Suggestion

def ofName (given name : String) : Suggestion :=
  ⟨name, Text.shared name.toList given.toList, name.length + given.length⟩

/-- Whether a suggestion is as good as another one or better: the larger share counts, and then the
later place in the alphabet. -/
def isAtLeast (one other : Suggestion) : Bool :=
  other.shared * one.total < one.shared * other.total ||
    (other.shared * one.total == one.shared * other.total && other.name ≤ one.name)

/-- The most suggestions that are made. -/
def limit : Nat := 3

/-- The best suggestions for a given name, in alphabetical order. -/
def names (given : String) : List String :=
  let alike := (Setting.all.map Setting.longName).filter fun name =>
    Text.alike name.toList given.toList
  let best := ((alike.map (ofName given)).mergeSort isAtLeast).take limit
  (best.map name).mergeSort fun one other => one ≤ other

/-- What is said about suggested names. -/
def sentence : List String → String
  | [] => ""
  | [name] => " Did you mean '" ++ name ++ "'?"
  | names =>
      " (Did you mean one of: " ++ ", ".intercalate (names.map fun name => "'" ++ name ++ "'") ++
        "?)"

end Suggestion

end LuaCore.CommandLine
