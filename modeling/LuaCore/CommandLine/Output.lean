import LuaCore.Text.Colour

/-!
What a run writes: pieces of text for two streams, in the order of writing.
-/

namespace LuaCore.CommandLine

inductive Stream where
  | out
  | err
  deriving DecidableEq

structure Piece where
  stream : Stream
  text : String
  deriving DecidableEq

/-- The texts of two streams. -/
structure Written where
  out : String := ""
  err : String := ""

/-- A text without the codes that control a terminal. -/
def plainText (text : String) : String :=
  String.ofList (Text.strip .control text.toList)

def textOn (stream : Stream) (pieces : List Piece) : String :=
  String.join ((pieces.filter fun piece => piece.stream = stream).map Piece.text)

/-- What pieces amount to. Under plain output each piece goes without its colour codes to one
stream. -/
def written (plain : Bool) (pieces : List Piece) : Written :=
  if plain then
    ⟨String.join (pieces.map fun piece => String.ofList (Text.strip .colour piece.text.toList)), ""⟩
  else ⟨textOn .out pieces, textOn .err pieces⟩

end LuaCore.CommandLine
