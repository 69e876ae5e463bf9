import LuaCore.CommandLine.Shell
import LuaCore.Text.Line

/-!
The program as a whole: from a command line and its surroundings to what it writes and its exit
code. Scripts run first, then the chunks on the command line; with neither, the standard input is
run or, if it is a terminal, read at a prompt.
-/

namespace LuaCore.CommandLine

/-- What surrounds a run: the texts of files by their names, the standard input and whether it is a
terminal, and the environment. -/
structure Surroundings where
  file : String → Except FileError String
  input : String := ""
  isTerminal : Bool := false
  environment : Options.Environment := fun _ => none

/-- What a run writes, and its exit code. -/
structure Result where
  exitCode : Nat
  written : Written

/-- A result on streams that are no terminals, with no codes to control one. -/
def Result.plain (result : Result) : Result :=
  { result with written := ⟨plainText result.written.out, plainText result.written.err⟩ }

def usage : String :=
  "Usage: minilua [OPTIONS] [SCRIPTS]...\n"

def usageText (error : UsageError) : String :=
  (if error.tellsUsage then usage ++ "Try 'minilua --help' for help.\n\n" else "") ++
    "Error: " ++ error.message ++ "\n"

def helpText : String :=
  usage ++ "\n" ++
    "  Run Lua SCRIPTS (`-` reads stdin); with none, read piped stdin or start the\n" ++
    "  REPL.\n\n" ++
    "Options:\n" ++
    "  -e, --execute CODE  Run a chunk after the scripts, printing any value it\n" ++
    "                      returns.\n" ++
    "  -i, --interactive   Enter the REPL once scripts and chunks have run.\n" ++
    "  --ignore            Keep going after a failing script or chunk.\n" ++
    "  --stats             Display the number of executed statements and elapsed\n" ++
    "                      time.\n" ++
    "  -v, --verbose       Trace every statement the interpreter executes.\n" ++
    "  -p, --plain         Strip ANSI color codes and send diagnostics to stdout.\n" ++
    "  -h, --help          Show this message and exit.\n"

/-- The name of the standard input as a script. -/
def inputScript : String := "-"

def inputName : String := "<STDIN>"

def unified (text : String) : String :=
  String.ofList (Text.unifyNewlines text.toList)

/-- The chunks of scripts. The standard input can be read once. -/
def scriptChunks (surroundings : Surroundings) (input : String) : List String → List Chunk
  | [] => []
  | script :: rest =>
      if script = inputScript then
        ⟨input, inputName, false⟩ :: scriptChunks surroundings "" rest
      else
        ⟨unified ((surroundings.file script).toOption.getD ""),
          if script = "<stdin>" then inputName else script, false⟩ ::
          scriptChunks surroundings input rest

/-- Chunks of code with their numbers, counted from one more than the given number. -/
def codeChunks (before : Nat) : List String → List Chunk
  | [] => []
  | code :: rest =>
      ⟨String.ofList (Text.trimRight code.toList) ++ "\n",
        "<INPUT_" ++ toString (before + 1) ++ ">", true⟩ :: codeChunks (before + 1) rest

/-- What a command line asks for: chunks to run, then perhaps a prompt. -/
structure Plan where
  chunks : List Chunk
  prompts : Bool

namespace Plan

/-- Whether the standard input is a chunk of its own, for want of anything else to do. -/
def pipes (options : Options) (isTerminal : Bool) : Bool :=
  options.scripts.isEmpty && options.code.isEmpty && !options.interactive && !isTerminal

/-- Whether a chunk needs the standard input, so that nothing is left of it for the prompt. -/
def takesInput (options : Options) (isTerminal : Bool) : Bool :=
  pipes options isTerminal || options.scripts.contains inputScript

def ofOptions (options : Options) (surroundings : Surroundings) : Plan :=
  let input := unified surroundings.input
  if pipes options surroundings.isTerminal then ⟨[⟨input, inputName, false⟩], false⟩
  else
    let given := scriptChunks surroundings input options.scripts ++ codeChunks 0 options.code
    ⟨given, options.interactive || given.isEmpty⟩

/-- The lines that the prompt gets to read. -/
def lines (options : Options) (surroundings : Surroundings) : List String :=
  if takesInput options surroundings.isTerminal then []
  else (Text.feedLines (unified surroundings.input).toList).map String.ofList

end Plan

/-- Runs the chunks of a plan, and tells whether the prompt follows. -/
def Shell.runPlan (fuel : Nat) (ignore : Bool) (plan : Plan) (shell : Shell) :
    Option (Bool × Shell) :=
  (shell.runChunks fuel ignore plan.chunks).map fun next =>
    if next.1 && plan.prompts then (true, next.2.writeLine .out Shell.greeting)
    else (false, next.2)

/-- The end of a run, which took some time. -/
def Shell.finish (milliseconds : Nat) (options : Options) (shell : Shell) : Shell :=
  if options.stats then shell.writeStatistics milliseconds else shell

/-- The options of a run, or the result if there is nothing to run. -/
def prepare (arguments : List String) (environment : Options.Environment)
    (file : String → Except FileError String) : Except Result Options :=
  match Arguments.read {} arguments with
  | .error error => .error ⟨2, { err := usageText error }⟩
  | .ok arguments =>
      if arguments.has .help then .error ⟨0, { out := helpText }⟩
      else
        (Options.resolve arguments environment fun script =>
            if script = inputScript then .ok "" else file script).mapError fun error =>
          ⟨2, { err := usageText error }⟩

/-- A run with resolved options. -/
def runOptions (fuel milliseconds : Nat) (options : Options) (surroundings : Surroundings) :
    Option Result := do
  let plan := Plan.ofOptions options surroundings
  let (prompts, shell) ← (Shell.start options).runPlan fuel options.ignore plan
  let shell ←
    if prompts then shell.feedAll fuel (Plan.lines options surroundings) else some shell
  let shell := shell.finish milliseconds options
  return ⟨shell.exitCode, written options.plain shell.output.toList⟩

/-- A run of the program, which takes some time, with streams that are no terminals. There is no
result if the fuel does not last. -/
def run (fuel milliseconds : Nat) (arguments : List String) (surroundings : Surroundings) :
    Option Result :=
  match prepare arguments surroundings.environment surroundings.file with
  | .error result => some result.plain
  | .ok options => runOptions fuel milliseconds options surroundings

end LuaCore.CommandLine
