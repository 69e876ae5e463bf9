import LuaCore.CommandLine.Run

/-!
The program on a real terminal: files, standard streams and the environment.
-/

namespace LuaCore.CommandLine

/-- Enough for any run that a user waits for. -/
def ample : Nat := 1000000000000

def readEnvironment : IO Options.Environment := do
  let mut found : List (String × String) := []
  for setting in Setting.all do
    if let some name := setting.environmentName? then
      if let some value ← IO.getEnv name then
        found := (name, value) :: found
  let values := found
  return fun name => values.lookup name

/-- Why the host does not open a file. It names the file only if the opening failed, and not if the
reading did. -/
def FileError.ofHost : IO.Error → FileError
  | .noFileOrDirectory .. => .missing
  | .inappropriateType none .. => .folder
  | .inappropriateType (some _) .. => .notFolder
  | .permissionDenied .. => .refused "Permission denied"
  | error => .refused (toString error)

/-- What comes of opening scripts. -/
abbrev Opened := List (String × Except FileError String)

def Opened.file (opened : Opened) (script : String) : Except FileError String :=
  (opened.lookup script).getD (.error .missing)

def readScripts (arguments : List String) : IO Opened := do
  match Arguments.read {} arguments with
  | .error _ => return []
  | .ok arguments =>
      let mut opened : Opened := []
      for script in arguments.scripts do
        try
          let text ← IO.FS.readFile script
          opened := (script, .ok text) :: opened
        catch error => opened := (script, .error (FileError.ofHost error)) :: opened
      return opened

def present (result : Written) : IO Unit := do
  let out ← IO.getStdout
  out.putStr result.out
  out.flush
  let err ← IO.getStderr
  err.putStr result.err
  err.flush

/-- Writes what a shell has to write so far. -/
def release (plain : Bool) (shell : Shell) : IO Shell := do
  present (written plain shell.output.toList)
  return { shell with output := #[] }

/-- Prompts for lines until one leaves the prompt or there are no more. -/
partial def converse (plain : Bool) (shell : Shell) : IO (Option Shell) := do
  let shell ← release plain (shell.write .out shell.prompt)
  let line ← (← IO.getStdin).getLine
  if line.isEmpty then
    return some (shell.writeLine .out "")
  match (Text.feedLines (unified line).toList).map String.ofList with
  | [] => converse plain shell
  | line :: _ =>
      match shell.feed ample line with
      | none => return none
      | some (true, shell) => converse plain (← release plain shell)
      | some (false, shell) => return some shell

/-- Runs the chunks of a plan and the prompt that may follow. There is no shell if the fuel does
not last. -/
def attend (options : Options) (surroundings : Surroundings) : IO (Option Shell) := do
  let plan := Plan.ofOptions options surroundings
  match (Shell.start options).runPlan ample options.ignore plan with
  | none => return none
  | some (false, shell) => return some shell
  | some (true, shell) =>
      if Plan.takesInput options surroundings.isTerminal then return shell.feedAll ample []
      else converse options.plain shell

def attendTimed (options : Options) (surroundings : Surroundings) : IO UInt32 := do
  let started ← IO.monoMsNow
  match ← attend options surroundings with
  | none => return 70
  | some shell => do
      let elapsed := (← IO.monoMsNow) - started
      let shell ← release options.plain (shell.finish elapsed options)
      return shell.exitCode.toUInt32

def start (arguments : List String) : IO UInt32 := do
  let environment ← readEnvironment
  let scripts ← readScripts arguments
  match prepare arguments environment scripts.file with
  | .error result => do
      let onTerminal ← (← IO.getStderr).isTty
      present (if onTerminal then result else result.plain).written
      return result.exitCode.toUInt32
  | .ok options => do
      let stdin ← IO.getStdin
      let isTerminal ← stdin.isTty
      let input ← if Plan.takesInput options isTerminal then stdin.readToEnd else pure ""
      attendTimed options ⟨scripts.file, input, isTerminal, environment⟩

end LuaCore.CommandLine

def main (arguments : List String) : IO UInt32 :=
  LuaCore.CommandLine.start arguments
