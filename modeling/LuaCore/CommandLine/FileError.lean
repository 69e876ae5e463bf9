/-!
Why a file cannot be opened, and the words for it.
-/

namespace LuaCore.CommandLine

inductive FileError where
  | missing
  /-- The path goes on behind a file. -/
  | notFolder
  /-- The path leads to a folder. -/
  | folder
  | longName
  /-- Any other reason that a host gives. -/
  | refused (reason : String)
  deriving DecidableEq

def FileError.message : FileError → String
  | missing => "No such file or directory"
  | notFolder => "Not a directory"
  | folder => "Is a directory"
  | longName => "File name too long"
  | refused reason => reason

end LuaCore.CommandLine
