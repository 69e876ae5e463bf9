/-!
The settings of the program: the names of their options, and the variables of the environment that
can stand in for an option that is not given.
-/

namespace LuaCore.CommandLine

/-- What an option sets. -/
inductive Setting where
  | execute
  | interactive
  | ignore
  | stats
  | verbose
  | plain
  | help
  deriving DecidableEq

namespace Setting

/-- All settings, in the order in which the environment is looked through. -/
def all : List Setting :=
  [execute, interactive, ignore, stats, verbose, plain, help]

def longName : Setting → String
  | execute => "--execute"
  | interactive => "--interactive"
  | ignore => "--ignore"
  | stats => "--stats"
  | verbose => "--verbose"
  | plain => "--plain"
  | help => "--help"

def letter? : Setting → Option Char
  | execute => some 'e'
  | interactive => some 'i'
  | ignore => none
  | stats => none
  | verbose => some 'v'
  | plain => some 'p'
  | help => some 'h'

def takesValue : Setting → Bool
  | execute => true
  | _ => false

def ofLongName? (name : String) : Option Setting :=
  all.find? fun setting => setting.longName = name

def ofLetter? (letter : Char) : Option Setting :=
  all.find? fun setting => setting.letter? = some letter

/-- How a message names a setting. -/
def hint (setting : Setting) : String :=
  "'" ++ setting.longName ++ "'" ++
    match setting.letter? with
    | some letter => " / '-" ++ String.ofList [letter] ++ "'"
    | none => ""

/-- The environment variable of a setting, if it has one. -/
def environmentName? : Setting → Option String
  | interactive => some "MINILUA_INTERACTIVE"
  | ignore => some "MINILUA_IGNORE"
  | stats => some "MINILUA_STATS"
  | verbose => some "MINILUA_VERBOSE"
  | plain => some "MINILUA_PLAIN"
  | execute | help => none

end Setting

end LuaCore.CommandLine
