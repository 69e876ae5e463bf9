import LuaCore.CommandLine.UsageError

/-!
What stands on a command line. An argument that starts with a dash and goes on behind it is a long
option by its full name or a cluster of letters; any other argument is a script, and so is every
argument behind two dashes alone.
-/

namespace LuaCore.CommandLine

/-- What stands on a command line: the settings that are given, in order and with repetitions, the
chunks of code, and the scripts. -/
structure Arguments where
  given : List Setting := []
  code : List String := []
  scripts : List String := []

namespace Arguments

def addFlag (arguments : Arguments) (setting : Setting) : Arguments :=
  { arguments with given := arguments.given ++ [setting] }

def addCode (arguments : Arguments) (code : String) : Arguments :=
  { arguments with given := arguments.given ++ [.execute], code := arguments.code ++ [code] }

def addScripts (arguments : Arguments) (scripts : List String) : Arguments :=
  { arguments with scripts := arguments.scripts ++ scripts }

/-- A text before its first equals sign, and behind it if there is one. -/
def splitEquals : List Char → List Char × Option (List Char)
  | [] => ([], none)
  | c :: rest =>
      if c = '=' then ([], some rest)
      else
        let parts := splitEquals rest
        (c :: parts.1, parts.2)

/-- The arguments after an option, and whether the option takes up the next argument too. -/
abbrev Taken := Except UsageError (Arguments × Bool)

/-- An option that needs a value, under the name by which it was given. -/
def takeValue (arguments : Arguments) (name : String) (attached : Option (List Char))
    (next : Option String) : Taken :=
  match attached, next with
  | some value, _ => .ok (arguments.addCode (String.ofList value), false)
  | none, some value => .ok (arguments.addCode value, true)
  | none, none => .error (.missingValue name)

def takeLong (arguments : Arguments) (setting : Setting) (attached : Option (List Char))
    (next : Option String) : Taken :=
  if setting.takesValue then arguments.takeValue setting.longName attached next
  else if attached.isSome then .error (.unexpectedValue setting.longName)
  else .ok (arguments.addFlag setting, false)

/-- A cluster of letters. The letters behind one that needs a value are the value. -/
def takeLetters (arguments : Arguments) (next : Option String) : List Char → Taken
  | [] => .ok (arguments, false)
  | letter :: rest =>
      match Setting.ofLetter? letter with
      | none => .error (.unknownLetter letter)
      | some setting =>
          if setting.takesValue then
            arguments.takeValue ("-" ++ String.ofList [letter])
              (if rest.isEmpty then none else some rest) next
          else (arguments.addFlag setting).takeLetters next rest

/-- An argument that starts with a dash and goes on behind it. -/
def takeOption (arguments : Arguments) (option : List Char) (next : Option String) : Taken :=
  let parts := splitEquals option
  let name := String.ofList parts.1
  match Setting.ofLongName? name, option with
  | some setting, _ => arguments.takeLong setting parts.2 next
  | none, '-' :: '-' :: _ => .error (.unknownOption name)
  | none, _ => arguments.takeLetters next option.tail

def isOption : List Char → Bool
  | '-' :: _ :: _ => true
  | _ => false

def read (arguments : Arguments) : List String → Except UsageError Arguments
  | [] => .ok arguments
  | [last] =>
      if last = "--" then .ok arguments
      else if isOption last.toList then (arguments.takeOption last.toList none).map Prod.fst
      else .ok (arguments.addScripts [last])
  | first :: next :: rest =>
      if first = "--" then .ok (arguments.addScripts (next :: rest))
      else if isOption first.toList then
        match arguments.takeOption first.toList (some next) with
        | .error error => .error error
        | .ok (arguments, true) => arguments.read rest
        | .ok (arguments, false) => arguments.read (next :: rest)
      else (arguments.addScripts [first]).read (next :: rest)

def has (arguments : Arguments) (setting : Setting) : Bool :=
  arguments.given.contains setting

end Arguments

end LuaCore.CommandLine
