import LuaCore.Text.Line

/-!
The lines of a source text around a place, for an error report: the line itself with two
neighbours on each side, numbered and coloured, and the token at the place highlighted.
-/

namespace LuaCore.Excerpt

/-- A colour code with its parameters. -/
def code (parameters : String) : List Char :=
  '\x1b' :: '[' :: parameters.toList ++ ['m']

def bright : List Char := code "97"

def dim : List Char := code "90"

def plain : List Char := code "0"

def highlight : List Char := code "48;5;30" ++ code "1;97"

/-- The number of the line to show, which is the last one unless another one is given. -/
def targetLine (count : Nat) (line : Option Int) : Nat :=
  match line with
  | none => count
  | some line => if line = 0 then count else min (max line.toNat 1) count

/-- Lines with their numbers, counted from one more than the given number. -/
def numbered (before : Nat) : List (List Char) → List (Nat × List Char)
  | [] => []
  | line :: rest => (before + 1, line) :: numbered (before + 1) rest

/-- The lines from two before a line up to two after it. -/
def window (target : Nat) (lines : List (List Char)) : List (Nat × List Char) :=
  ((numbered 0 lines).drop (target - 3)).take (min lines.length (target + 2) - (target - 3))

/-- A line without the line feed that ends it. -/
def content (line : List Char) : List Char :=
  if line.getLast? = some '\n' then line.dropLast else line

/-- The token of a line in colours, if it starts inside the line. -/
def markToken (column : Int) (width : Nat) (content : List Char) : List Char :=
  if 0 < column ∧ column ≤ content.length then
    let start := column.toNat - 1
    content.take start ++ highlight ++ (content.drop start).take width ++ plain ++
      content.drop (start + width)
  else content

/-- A number in front of its line, five columns wide. -/
def label (number : Nat) : List Char :=
  let digits := (toString number).toList
  List.replicate (5 - digits.length) ' ' ++ digits ++ [' ', '|']

def shownLine (target : Nat) (column : Int) (width : Nat) (line : Nat × List Char) : List Char :=
  let text := content line.2
  if line.1 = target then
    bright ++ label line.1 ++ plain ++ ' ' :: markToken column width text
  else dim ++ label line.1 ++ plain ++ ' ' :: text

def heading (fileName : String) (target : Nat) : List Char :=
  bright ++ ("  File \"" ++ fileName ++ "\", line " ++ toString target).toList ++ plain

/-- The excerpt around a place in a source text, each line of it behind a line feed. -/
def render (fileName : String) (line column : Option Int) (token : Option String)
    (source : String) : String :=
  let lines := Text.lines source.toList
  if lines.isEmpty then ""
  else
    let target := targetLine lines.length line
    let width := max (token.getD "").length 1
    let shown := (window target lines).map (shownLine target (column.getD 0) width)
    String.ofList ((heading fileName target :: shown).flatMap ('\n' :: ·) ++ ['\n'])

end LuaCore.Excerpt
