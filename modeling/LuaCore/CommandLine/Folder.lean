import LuaCore.CommandLine.FileError

/-!
Texts in a folder, and the paths that lead to them. A path is followed part by part, and fails at
the first part that leads nowhere.
-/

namespace LuaCore.CommandLine

/-- The texts in a folder and below it, by the names on the way to them. -/
structure Folder where
  files : List (List String × String) := []

namespace Folder

/-- Where a path has led so far: to a folder inside or to one outside, of which nothing is known, or
to a text. -/
inductive Place where
  | inside (names : List String)
  | outside
  | text (content : String)

/-- The names on a path. Its empty parts and single dots lead nowhere else. -/
def names (path : String) : List String :=
  (path.splitOn "/").filter fun part => part != "" && part != "."

def ofFiles (files : List (String × String)) : Folder :=
  ⟨files.map fun file => (names file.1, file.2)⟩

/-- The longest name of a file, in bytes. -/
def longestName : Nat := 255

/-- The longest path, in bytes. -/
def longestPath : Nat := 4095

def enter (folder : Folder) (names : List String) : Except FileError Place :=
  match folder.files.lookup names with
  | some content => .ok (.text content)
  | none =>
      if folder.files.any fun file => names.isPrefixOf file.1 then .ok (.inside names)
      else .error .missing

/-- The folder above a place. -/
def up : Place → Place
  | .inside [] => .outside
  | .inside names => .inside names.dropLast
  | place => place

/-- Goes on from a place by one part of a path. -/
def follow (folder : Folder) (place : Place) (part : String) : Except FileError Place :=
  match place with
  | .text _ => .error .notFolder
  | place =>
      if part = "" ∨ part = "." then .ok place
      else if part = ".." then .ok (up place)
      else if longestName < part.utf8ByteSize then .error .longName
      else
        match place with
        | .inside names => folder.enter (names ++ [part])
        | _ => .error .missing

/-- The text that a path leads to. -/
def read (folder : Folder) (path : String) : Except FileError String :=
  if path = "" then .error .missing
  else if longestPath < path.utf8ByteSize then .error .longName
  else
    let start := if path.startsWith "/" then Place.outside else .inside []
    match (path.splitOn "/").foldlM folder.follow start with
    | .error error => .error error
    | .ok (.text content) => .ok content
    | .ok _ => .error .folder

end Folder

end LuaCore.CommandLine
