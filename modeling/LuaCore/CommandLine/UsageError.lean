import LuaCore.CommandLine.FileError
import LuaCore.CommandLine.Suggestion
import LuaCore.Text.Quoted

/-!
Why a command line or its environment is refused, and what the user is told.
-/

namespace LuaCore.CommandLine

/-- Why a command line is refused. -/
inductive UsageError where
  | unknownOption (name : String)
  | unknownLetter (letter : Char)
  | missingValue (name : String)
  | unexpectedValue (name : String)
  | unreadable (name : String) (error : FileError)
  | notBoolean (setting : Setting) (value : String)
  | notCount (setting : Setting) (value : String)
  | negativeCount (setting : Setting) (value : Int)
  deriving DecidableEq

namespace UsageError

def quoted (text : String) : String :=
  String.ofList (Text.quote text.toList)

/-- The words that are understood as truth values. -/
def states : String :=
  ", 0, 1, f, false, n, no, off, on, t, true, y, yes"

def invalid (hint reason : String) : String :=
  "Invalid value for " ++ hint ++ ": " ++ reason

def message : UsageError → String
  | unknownOption name =>
      "No such option " ++ quoted name ++ "." ++ Suggestion.sentence (Suggestion.names name)
  | unknownLetter letter => "No such option " ++ quoted ("-" ++ String.ofList [letter]) ++ "."
  | missingValue name => "Option " ++ quoted name ++ " requires an argument."
  | unexpectedValue name => "Option " ++ quoted name ++ " does not take a value."
  | unreadable name error => invalid "'[SCRIPTS]...'" ("'" ++ name ++ "': " ++ error.message)
  | notBoolean setting value =>
      invalid setting.hint
        (quoted value ++ " is not a valid boolean. Recognized values: " ++ states)
  | notCount setting value =>
      invalid setting.hint (quoted value ++ " is not a valid integer range.")
  | negativeCount setting value =>
      invalid setting.hint (toString value ++ " is not in the range x>=0.")

/-- Whether the usage is told together with the error. -/
def tellsUsage : UsageError → Bool
  | missingValue _ | unexpectedValue _ => false
  | _ => true

end UsageError

end LuaCore.CommandLine
