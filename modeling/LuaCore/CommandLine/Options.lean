import LuaCore.CommandLine.Arguments
import LuaCore.Text.Blank
import LuaCore.Text.Digit

/-!
How a run is set up, from its command line and its environment. A setting on the command line wins
over the environment.
-/

namespace LuaCore.CommandLine

/-- How the program is to run. -/
structure Options where
  scripts : List String := []
  code : List String := []
  interactive : Bool := false
  ignore : Bool := false
  stats : Bool := false
  verbose : Nat := 0
  plain : Bool := false

namespace Options

/-- The environment, in which an empty variable counts as absent. -/
abbrev Environment := String → Option String

def preset? (environment : Environment) (setting : Setting) : Option String :=
  (setting.environmentName?.bind environment).filter fun value => value != ""

def lower (text : List Char) : List Char :=
  text.map Char.toLower

/-- The truth value that a word stands for, in any letter case and with blanks around it. -/
def truth? (word : String) : Option Bool :=
  let word := String.ofList (lower (Text.trim word.toList))
  if word ∈ ["1", "true", "t", "yes", "y", "on"] then some true
  else if word ∈ ["", "0", "false", "f", "no", "n", "off"] then some false
  else none

/-- The value of decimal digits of any script, with single underscores between them. -/
def digits? (value : Nat) : List Char → Option Nat
  | [] => some value
  | '_' :: c :: rest =>
      (Text.digitValue? c).bind fun digit => digits? (10 * value + digit) rest
  | c :: rest => (Text.digitValue? c).bind fun digit => digits? (10 * value + digit) rest

/-- The most digits that a whole number may have. -/
def longestNumeral : Nat := 4300

def natural? : List Char → Option Nat
  | [] => none
  | '_' :: _ => none
  | digits =>
      if longestNumeral < digits.countP (· != '_') then none else digits? 0 digits

/-- The whole number that a text stands for, with white space around it. -/
def integer? (text : String) : Option Int :=
  match Text.trimNumber text.toList with
  | '-' :: digits => (natural? digits).map fun n => -(n : Int)
  | '+' :: digits => (natural? digits).map Int.ofNat
  | digits => (natural? digits).map Int.ofNat

/-- A flag that is given or set in the environment. -/
def flag (arguments : Arguments) (environment : Environment) (setting : Setting) :
    Except UsageError Bool :=
  if arguments.has setting then .ok true
  else
    match preset? environment setting with
    | none => .ok false
    | some word =>
        match truth? word with
        | some value => .ok value
        | none => .error (.notBoolean setting word)

/-- How often a flag is given, or the count set in the environment. -/
def count (arguments : Arguments) (environment : Environment) (setting : Setting) :
    Except UsageError Nat :=
  if arguments.has setting then .ok (arguments.given.count setting)
  else
    match preset? environment setting with
    | none => .ok 0
    | some word =>
        match integer? word with
        | none => .error (.notCount setting word)
        | some (.ofNat n) => .ok n
        | some n => .error (.negativeCount setting n)

/-- The first script that cannot be opened. -/
def unreadable? (file : String → Except FileError String) (scripts : List String) :
    Option UsageError :=
  scripts.findSome? fun script =>
    match file script with
    | .ok _ => none
    | .error error => some (.unreadable script error)

/-- The options of a command line. An unreadable script is reported before the environment is. -/
def resolve (arguments : Arguments) (environment : Environment)
    (file : String → Except FileError String) : Except UsageError Options := do
  match unreadable? file arguments.scripts with
  | some error => throw error
  | none =>
      let interactive ← flag arguments environment .interactive
      let ignore ← flag arguments environment .ignore
      let stats ← flag arguments environment .stats
      let verbose ← count arguments environment .verbose
      let plain ← flag arguments environment .plain
      return ⟨arguments.scripts, arguments.code, interactive, ignore, stats, verbose, plain⟩

end Options

end LuaCore.CommandLine
