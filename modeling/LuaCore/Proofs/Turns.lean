import Mathlib.Tactic.SplitIfs
import LuaCore.CommandLine.Run

/-!
Turns of a shell: what the execution of a chunk does to it. The chunk is executed on the session of
the shell, and what that lets out is written behind the output that there is.
-/

namespace LuaCore.CommandLine.Shell

/-- The shell with more written behind its output. -/
def extend (shell : Shell) (pieces : List Piece) : Shell :=
  { shell with output := shell.output ++ pieces.toArray }

/-- What is written of an event. -/
def eventPieces : Event → List Piece
  | .printed text => [⟨.out, text⟩]
  | .traced entry => [⟨.err, entry.render ++ "\n"⟩]
  | .recorded _ => []

/-- What is written of a session that is gone on with. -/
def drainedPieces (session : Session) : List Piece :=
  session.drain.1.flatMap eventPieces

/-- What is written of the outcome of typed lines. -/
def typedPieces (lines : List String) (session : Session) : Except RunError Value → List Piece
  | .ok value => (resultText? { session := session } 72 value).toList.map fun text =>
      ⟨.out, Report.coloured "90" ">>>" ++ " " ++ text ++ "\n"⟩
  | .error error => [⟨.err, report (typed lines) error ++ "\n"⟩]

/-- What is written of the outcome of a chunk. -/
def chunkPieces (chunk : Chunk) (session : Session) : Except RunError Value → List Piece
  | .ok value =>
      if chunk.showsResult then
        (resultText? { session := session } 120 value).toList.map fun text => ⟨.out, text ++ "\n"⟩
      else []
  | .error error => [⟨.err, report chunk error ++ "\n"⟩]

/-- The statistics. -/
def statisticsPieces (milliseconds steps : Nat) : List Piece :=
  [⟨.out, "\n" ++ Report.code "97" ++ Report.coloured "48;5;30" " STATISTICS. " ++ "\n"⟩,
    ⟨.out, "step\t" ++ Report.coloured "97" (grouped steps) ++ "\n"⟩,
    ⟨.out, "time\t" ++ Report.coloured "97" (seconds milliseconds) ++ "\n"⟩]

variable (shell : Shell)

theorem write_extend (stream : Stream) (text : String) :
    shell.write stream text = shell.extend [⟨stream, text⟩] := by
  simp [write, extend]

theorem writeLine_extend (stream : Stream) (text : String) :
    shell.writeLine stream text = shell.extend [⟨stream, text ++ "\n"⟩] :=
  write_extend shell stream _

theorem extend_nil : shell.extend [] = shell := by
  simp [extend]

theorem extend_extend (first second : List Piece) :
    (shell.extend first).extend second = shell.extend (first ++ second) := by
  simp [extend]

theorem writeEvent_extend (event : Event) :
    shell.writeEvent event = shell.extend (eventPieces event) := by
  cases event with
  | printed text => exact write_extend shell .out text
  | traced entry => exact writeLine_extend shell .err entry.render
  | recorded value => exact (extend_nil shell).symm

theorem writeEvents_extend (events : List Event) :
    events.foldl writeEvent shell = shell.extend (events.flatMap eventPieces) := by
  induction events generalizing shell with
  | nil => exact (extend_nil shell).symm
  | cons event rest ih =>
      rw [List.foldl_cons, ih, writeEvent_extend, extend_extend, List.flatMap_cons]

theorem resume_extend (session : Session) : shell.resume session =
    extend { shell with session := session.drain.2 } (drainedPieces session) :=
  writeEvents_extend _ _

/-- A chunk is executed on the session, and nothing else of the shell changes but its output. -/
theorem execute_extend (fuel : Nat) (chunk : Chunk) : shell.execute fuel chunk =
    (shell.session.execute fuel chunk.source).map fun next =>
      (next.1, extend { shell with session := next.2.drain.2 } (drainedPieces next.2)) := by
  simp only [execute, resume_extend]

theorem showTyped_extend (lines : List String) (value : Value) :
    shell.showTyped value = shell.extend (typedPieces lines shell.session (.ok value)) := by
  have same : shell.resultText? 72 value = resultText? { session := shell.session } 72 value := rfl
  rw [showTyped, typedPieces, same]
  cases resultText? { session := shell.session } 72 value with
  | none => exact (extend_nil shell).symm
  | some text => exact writeLine_extend shell .out _

theorem showResult_extend (chunk : Chunk) (value : Value) :
    shell.showResult chunk value = shell.extend (chunkPieces chunk shell.session (.ok value)) := by
  have same : shell.resultText? 120 value =
      resultText? { session := shell.session } 120 value := rfl
  rw [showResult, chunkPieces, same]
  split_ifs
  · cases resultText? { session := shell.session } 120 value with
    | none => exact (extend_nil shell).symm
    | some text => exact writeLine_extend shell .out text
  · exact (extend_nil shell).symm

/-- A chunk has its turn once, and is counted as what it ends as. -/
theorem runChunk_extend (fuel : Nat) (chunk : Chunk) : shell.runChunk fuel chunk =
    (shell.session.execute fuel chunk.source).map fun next =>
      (next.1.isOk, extend
        { shell with
          session := next.2.drain.2
          completed := shell.completed + if next.1.isOk then 1 else 0
          failures := shell.failures + if next.1.isOk then 0 else 1 }
        (drainedPieces next.2 ++ chunkPieces chunk next.2.drain.2 next.1)) := by
  rw [runChunk, execute_extend, Option.map_map]
  congr 1
  funext ⟨answer, next⟩
  cases answer with
  | ok value =>
      simp only [Function.comp_apply, showResult_extend, extend_extend]
      rfl
  | error error =>
      simp only [Function.comp_apply, fail, writeLine_extend, extend_extend]
      rfl

end LuaCore.CommandLine.Shell
