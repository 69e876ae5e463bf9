import LuaCore.Program.OfTree
import LuaCore.Text.Line
import LuaCore.Token.Lexer
import LuaCore.Tree.Reader

/-!
Programs from text. A text that is no program has a first problem in text order: a token that no
program can have at its place, a character that starts no token, or an end that comes too early.
A text whose tokens are in order can still have a fault.
-/

namespace LuaCore

inductive ParseError where
  | refused (token : Token)
  | unmatched (c : Char) (position : Position)
  | faulty (fault : Fault)
  deriving DecidableEq

namespace ParseError

/-- Whether the text only stops too early. -/
def isIncomplete : ParseError → Bool
  | refused token => token.kind = .finish
  | _ => false

/-- The published name of an error. -/
def name (error : ParseError) : String :=
  match error with
  | faulty (.escape _) | faulty .numeral => "VisitError"
  | error => if error.isIncomplete then "LuaIncompleteParse" else "LuaParseError"

def refusedMessage (token : Token) : String :=
  "Unexpected token Token('" ++ token.kind.label ++ "', " ++
    String.ofList (Text.quote token.text.toList) ++ ") at line " ++
    toString token.position.line ++ ", column " ++ toString token.position.column ++ "."

def unmatchedMessage (c : Char) (position : Position) : String :=
  "No terminal matches '" ++ String.ofList [c] ++ "' in the current parser context, at line " ++
    toString position.line ++ " col " ++ toString position.column

/-- The rule whose tree has a fault, as far as it concerns a literal. -/
def faultyRule? : Fault → Option String
  | .escape _ => some "string"
  | .numeral => some "number"
  | .target .. => none

/-- The text of an error. A problem with the tokens is told in one line, which the character in it
may cut short. -/
def message : ParseError → String
  | refused token => String.ofList (Text.firstLine (refusedMessage token).toList)
  | unmatched c position => String.ofList (Text.firstLine (unmatchedMessage c position).toList)
  | faulty fault =>
      match faultyRule? fault with
      | some rule => "Error trying to process rule \"" ++ rule ++ "\":\n\n" ++ fault.reason
      | none => fault.reason

/-- Where a problem is, for errors that have a place. -/
def position? : ParseError → Option Position
  | refused token => some token.position
  | unmatched _ position => some position
  | faulty (.target _ start) => some start
  | faulty _ => none

/-- The token at the place of a problem, which is empty at the end of the text. -/
def token? : ParseError → Option String
  | refused token => some token.text
  | unmatched c _ => some (String.ofList [c])
  | faulty (.target ..) => some "="
  | faulty _ => none

/-- What an error knows of its place: the file that the text was said to be from, if any, and the
token there. -/
structure Site where
  fileName : Option String
  position : Position
  token : String
  deriving DecidableEq

/-- The site of an error, for errors that have a place. -/
def site? (fileName : Option String) (error : ParseError) : Option Site := do
  return ⟨fileName, ← error.position?, ← error.token?⟩

end ParseError

/-- The token behind the last one. It stands where the last one starts. -/
def finishToken (tokens : List Token) : Token :=
  ⟨.finish, "", (tokens.getLast?.map Token.position).getD {}⟩

/-- The tree of a text, if its tokens are in order. -/
def parseTree (source : String) : Except ParseError Tree.Block :=
  let scanned := Lexer.scan source
  match Tree.Reader.feedAll Tree.Reader.start scanned.tokens, scanned.stuck with
  | .error token, _ => .error (.refused token)
  | .ok _, some (c, position) => .error (.unmatched c position)
  | .ok state, none =>
      let finish := finishToken scanned.tokens
      match (Tree.Reader.feed state finish).bind Tree.Reader.program? with
      | some tree => .ok tree
      | none => .error (.refused finish)

/-- The program that a text holds. -/
def parse (source : String) : Except ParseError Block := do
  let tree ← parseTree source
  (Block.ofTree tree).mapError .faulty

end LuaCore
