import LuaCore.CommandLine.Options
import LuaCore.CommandLine.Output
import LuaCore.CommandLine.Report
import LuaCore.Display.Item

/-!
A shell runs chunks and the lines typed at a prompt on one session, and writes what they print,
their traces, their results and the reports of their failures. Lines are collected until they are a
whole chunk; lines that are not complete yet leave the session as it was.
-/

namespace LuaCore.CommandLine

structure Shell where
  session : Session
  completed : Nat := 0
  failures : Nat := 0
  /-- The lines at the prompt that are not a whole chunk yet. -/
  pending : List String := []
  output : Array Piece := #[]

namespace Shell

def start (options : Options) : Shell :=
  { session := Session.start options.verbose }

def write (shell : Shell) (stream : Stream) (text : String) : Shell :=
  { shell with output := shell.output.push ⟨stream, text⟩ }

def writeLine (shell : Shell) (stream : Stream) (text : String) : Shell :=
  shell.write stream (text ++ "\n")

/-- Writes what an event lets out; values handed to a host are not shown. -/
def writeEvent (shell : Shell) : Event → Shell
  | .printed text => shell.write .out text
  | .traced entry => shell.writeLine .err entry.render
  | .recorded _ => shell

/-- Goes on with a session after writing what it let out. -/
def resume (shell : Shell) (session : Session) : Shell :=
  let drained := session.drain
  drained.1.foldl writeEvent { shell with session := drained.2 }

/-- Executes a chunk, with the outcome for the caller to show. -/
def execute (fuel : Nat) (chunk : Chunk) (shell : Shell) :
    Option (Except RunError Value × Shell) :=
  (shell.session.execute fuel chunk.source).map fun next => (next.1, shell.resume next.2)

/-- The readable text of a result, unless it is nil. -/
def resultText? (shell : Shell) (width : Int) : Value → Option String
  | .nil => none
  | value => some (String.ofList (Display.item shell.session.machine (some width) 0 value))

def fail (shell : Shell) (chunk : Chunk) (error : RunError) : Shell :=
  shell.writeLine .err (report chunk error)

def showResult (shell : Shell) (chunk : Chunk) (value : Value) : Shell :=
  if chunk.showsResult then
    match shell.resultText? 120 value with
    | some text => shell.writeLine .out text
    | none => shell
  else shell

/-- Runs a chunk, and tells whether it ran to its end. -/
def runChunk (fuel : Nat) (chunk : Chunk) (shell : Shell) : Option (Bool × Shell) :=
  (shell.execute fuel chunk).map fun
    | (.ok value, shell) =>
        (true, { shell.showResult chunk value with completed := shell.completed + 1 })
    | (.error error, shell) =>
        (false, { shell.fail chunk error with failures := shell.failures + 1 })

/-- Runs chunks in order, up to the first one that fails unless failures are ignored. Tells whether
all of them had their turn. -/
def runChunks (fuel : Nat) (ignore : Bool) : List Chunk → Shell → Option (Bool × Shell)
  | [], shell => some (true, shell)
  | chunk :: rest, shell =>
      match shell.runChunk fuel chunk with
      | none => none
      | some (done, shell) =>
          if done || ignore then runChunks fuel ignore rest shell else some (false, shell)

def greeting : String :=
  "minilua REPL; type `exit` or Ctrl+D to leave."

/-- What stands in front of a line to be typed. -/
def prompt (shell : Shell) : String :=
  if shell.pending.isEmpty then Report.coloured "36" "<<< " else Report.coloured "36" "... "

/-- The chunk that typed lines make up. -/
def typed (lines : List String) : Chunk :=
  ⟨String.join (lines.map (· ++ "\n")), "<REPL>", false⟩

def showTyped (shell : Shell) (value : Value) : Shell :=
  match shell.resultText? 72 value with
  | some text => shell.writeLine .out (Report.coloured "90" ">>>" ++ " " ++ text)
  | none => shell

/-- Runs the collected lines, if they are a whole chunk. -/
def runTyped (fuel : Nat) (lines : List String) (shell : Shell) : Option Shell :=
  let chunk := typed lines
  (shell.execute fuel chunk).map fun
    | (.ok value, shell) => { shell.showTyped value with pending := [] }
    | (.error (.parse error), shell) =>
        if error.isIncomplete then { shell with pending := lines }
        else { shell.fail chunk (.parse error) with pending := [] }
    | (.error error, shell) => { shell.fail chunk error with pending := [] }

/-- Whether a line leaves the prompt. -/
def isLeaving (line : String) : Bool :=
  let word := String.ofList (Text.trim line.toList)
  word = "quit" || word = "exit"

def isBlankLine (line : String) : Bool :=
  line.toList.all Text.isBlank

/-- Takes a typed line. Tells whether the prompt goes on. -/
def feed (fuel : Nat) (line : String) (shell : Shell) : Option (Bool × Shell) :=
  if shell.pending.isEmpty && isBlankLine line then some (true, shell)
  else if shell.pending.isEmpty && isLeaving line then some (false, shell)
  else (shell.runTyped fuel (shell.pending ++ [line])).map fun shell => (true, shell)

/-- Takes lines until one leaves the prompt or there are no more. -/
def feedAll (fuel : Nat) : List String → Shell → Option Shell
  | [], shell => some ((shell.write .out shell.prompt).writeLine .out "")
  | line :: rest, shell =>
      match (shell.write .out shell.prompt).feed fuel line with
      | none => none
      | some (true, shell) => feedAll fuel rest shell
      | some (false, shell) => some shell

/-- A number with a comma in front of every three digits from the right. -/
def grouped (n : Nat) : String :=
  let digits := Nat.toDigits 10 n
  let marked := digits.zipIdx.flatMap fun entry =>
    if entry.2 != 0 && (digits.length - entry.2) % 3 == 0 then [',', entry.1] else [entry.1]
  String.ofList marked

/-- A duration in seconds, from milliseconds. -/
def seconds (milliseconds : Nat) : String :=
  let rest := toString (milliseconds % 1000)
  toString (milliseconds / 1000) ++ "." ++
    String.ofList (List.replicate (3 - rest.length) '0') ++ rest ++ "s"

/-- Writes the statistics, if there is anything to count. -/
def writeStatistics (milliseconds : Nat) (shell : Shell) : Shell :=
  if 0 < shell.completed then
    let steps := grouped (shell.session.counted.getD 0)
    ((shell.writeLine .out ("\n" ++ Report.code "97" ++ Report.coloured "48;5;30" " STATISTICS. ")
      ).writeLine .out ("step\t" ++ Report.coloured "97" steps)
      ).writeLine .out ("time\t" ++ Report.coloured "97" (seconds milliseconds))
  else shell

def exitCode (shell : Shell) : Nat :=
  if shell.failures = 0 then 0 else 1

end Shell

end LuaCore.CommandLine
