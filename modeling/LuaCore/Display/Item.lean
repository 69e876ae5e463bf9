import LuaCore.Display.Plain
import LuaCore.Text.Identifier

/-!
The readable text of a value, as a prompt shows it: strings in quotes, and tables with their
contents, on one line where it fits. A table inside itself is shown by a marker. Numbers, truth
values and nil are shown as in plain text.
-/

namespace LuaCore.Display

def escapeQuoted (c : Char) : List Char :=
  if c = '\\' then ['\\', '\\']
  else if c = '"' then ['\\', '"']
  else if c = '\n' then ['\\', 'n']
  else [c]

def quoted (text : List Char) : List Char :=
  '"' :: text.flatMap escapeQuoted ++ ['"']

def escapeKey (c : Char) : List Char :=
  if c = '"' then ['\\', '"'] else [c]

/-- A key of an entry: a name by itself, any other key in brackets. Of a text in brackets only the
quotes are escaped. -/
def keyText : Key → List Char
  | .integer n => '[' :: (toString n).toList ++ [']']
  | .name text =>
      if Text.isIdentifier text.toList then text.toList
      else '[' :: '"' :: text.toList.flatMap escapeKey ++ ['"', ']']

def blanks (count : Int) : List Char :=
  List.replicate count.toNat ' '

def separated (separator : List Char) (items : List (List Char)) : List Char :=
  (items.intersperse separator).flatten

def singleLine (items : List (List Char)) : List Char :=
  '{' :: separated [',', ' '] items ++ ['}']

/-- Items on a line each. The first one stands four columns behind the opening brace, and so do
the others, if the brace is indented as given. -/
def severalLines (indent : Int) (items : List (List Char)) : List Char :=
  ['{', ' ', ' ', ' '] ++ separated ([',', '\n'] ++ blanks (indent + 4)) items ++
    '\n' :: blanks indent ++ ['}']

/-- Whether an indented line fits into a width, if there is one. -/
def fits (width : Option Int) (indent : Int) (line : List Char) : Bool :=
  match width with
  | none => true
  | some width => line.length + indent ≤ width

def layout (width : Option Int) (indent : Int) (items : List (List Char)) : List Char :=
  if fits width indent (singleLine items) then singleLine items else severalLines indent items

/-- The length of the longest run of keys 1, 2, 3 and so on in a table. -/
def sequenceLength (table : Table) : Nat :=
  ((List.range table.size).takeWhile fun n => table.contains (.position (n + 1))).length

/-- Whether a key belongs to the first keys from 1 on. -/
def inSequence (length : Nat) : Key → Bool
  | .integer n => 1 ≤ n && n ≤ length
  | .name _ => false

/-- The items of a table from the texts of its values: first the sequence in order, then the other
entries in theirs. -/
def items (table : Table) (text : Value → List Char) : List (List Char) :=
  let length := sequenceLength table
  (List.range length).map (fun n => text (table.get (.position (n + 1)))) ++
    (table.entries.filter fun entry => !inSequence length entry.1).map fun entry =>
      keyText entry.1 ++ [' ', '=', ' '] ++ text entry.2

def callable : Callable → List Char
  | .closure closure =>
      match closure.shownName? with
      | some name => ("function " ++ name).toList
      | none => "function".toList
  | .native name _ => ("builtin " ++ name).toList

/-- The text of a value inside of tables, of which `unseen` are not. -/
def itemWithin (machine : Machine) (width : Option Int) (unseen : List Nat) (indent : Int)
    (value : Value) : List Char :=
  match value with
  | .nil => ['n', 'i', 'l']
  | .boolean value => if value then ['t', 'r', 'u', 'e'] else ['f', 'a', 'l', 's', 'e']
  | .number x => Double.plain x
  | .string text => quoted text.toList
  | .function id => callable (machine.callable id)
  | .table id =>
      if _member : id ∈ unseen then
        layout width indent <|
          items (machine.table id) fun value =>
            itemWithin machine width (unseen.erase id) (indent + 4) value
      else ['{', '…', '}']
termination_by unseen.length
decreasing_by
  have positive := List.length_pos_of_mem _member
  rw [List.length_erase_of_mem _member]
  omega

/-- The text of a value at an indentation. -/
def item (machine : Machine) (width : Option Int) (indent : Int) (value : Value) : List Char :=
  itemWithin machine width (List.range machine.tables.size) indent value

end LuaCore.Display
