import LuaCore.Excerpt
import LuaCore.Session

/-!
Reports of failed chunks, in colours. A report has a title, a headline that names the chunk, the
name of the error, and what surrounds it: an excerpt for a text that does not parse.
-/

namespace LuaCore.CommandLine

/-- A piece of source text to run, under a name for reports. -/
structure Chunk where
  source : String
  name : String
  showsResult : Bool := false

namespace Report

def code (parameters : String) : String :=
  "\x1b[" ++ parameters ++ "m"

/-- A text in a colour. -/
def coloured (parameters text : String) : String :=
  code parameters ++ text ++ code "0"

/-- The parts of a report. -/
structure Parts where
  title : String
  headline : String
  name : String
  context : String

def render (parts : Parts) : String :=
  coloured "30;43" (" " ++ parts.title ++ " ") ++ " " ++ parts.headline ++
    " (" ++ coloured "33" parts.name ++ ")" ++ parts.context

def chunkName (chunk : Chunk) : String :=
  "`" ++ coloured "97" chunk.name ++ "`"

def syntaxError (chunk : Chunk) (error : ParseError) : Parts :=
  { title := "SYNTAX ERROR."
    headline := "Could not parse " ++ chunkName chunk ++ ": " ++ coloured "90" error.message
    name := error.name
    context :=
      Excerpt.render chunk.name (error.position?.map fun position => (position.line : Int))
        (error.position?.map fun position => (position.column : Int)) error.token? chunk.source }

/-- Where a failure happened, as far as it is known. -/
def location : Option String → String
  | none => "main chunk"
  | some function => "function `" ++ coloured "1;97" function ++ "`"

def runtimeError (chunk : Chunk) (failure : Failure) (function : Option String) : Parts :=
  { title := "RUNTIME ERROR."
    headline :=
      coloured "1;97" failure.message ++ " in " ++ location function ++ " of " ++
        chunkName chunk ++ "."
    name := failure.name
    context := "" }

/-- An error of the host, with the cause that it wraps. -/
def hostError (chunk : Chunk) (name cause message : String) : Parts :=
  { title := "HOST ERROR."
    headline := "Python code failed while running " ++ chunkName chunk ++ "!"
    name := name
    context := "\n<traceback " ++ name ++ " " ++ cause ++ ": " ++ message ++ ">" }

def parts (chunk : Chunk) : RunError → Parts
  | .parse (.faulty (.escape digit)) =>
      let fault := Fault.escape digit
      hostError chunk (ParseError.faulty fault).name fault.name fault.reason
  | .parse (.faulty .numeral) =>
      let fault := Fault.numeral
      hostError chunk (ParseError.faulty fault).name fault.name fault.reason
  | .parse error => syntaxError chunk error
  | .failure (.misuse place value function) =>
      runtimeError chunk (.misuse place value function) function
  | .failure failure => hostError chunk failure.name failure.name failure.message

end Report

/-- The text of a report. -/
def report (chunk : Chunk) (error : RunError) : String :=
  Report.render (Report.parts chunk error)

end LuaCore.CommandLine
