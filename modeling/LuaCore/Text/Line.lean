/-!
Lines of a text as a reader of any script sees them: ten characters end a line, and a carriage
return followed by a line feed ends one line only. The lines, put together again, are the text.
-/

namespace LuaCore.Text

/-- Line feed, vertical tab, form feed, carriage return, the file, group and record separators,
next line, line separator and paragraph separator. -/
def isLineEnd (c : Char) : Bool :=
  (0xA ≤ c.toNat && c.toNat ≤ 0xD) || (0x1C ≤ c.toNat && c.toNat ≤ 0x1E) ||
    c.toNat == 0x85 || c.toNat == 0x2028 || c.toNat == 0x2029

/-- Puts a character in front of the first line. -/
def extendFirst (c : Char) : List (List Char) → List (List Char)
  | [] => [[c]]
  | line :: rest => (c :: line) :: rest

/-- The lines of a text, each with the characters that end it. -/
def lines : List Char → List (List Char)
  | [] => []
  | '\r' :: '\n' :: rest => ['\r', '\n'] :: lines rest
  | c :: rest => if isLineEnd c then [c] :: lines rest else extendFirst c (lines rest)

/-- The part of a text before its first line end. -/
def firstLine (text : List Char) : List Char :=
  text.takeWhile fun c => !isLineEnd c

/-- Text with every line ended by a single line feed: a carriage return, alone or before a line
feed, becomes one. -/
def unifyNewlines : List Char → List Char
  | [] => []
  | '\r' :: '\n' :: rest => '\n' :: unifyNewlines rest
  | c :: rest => (if c = '\r' then '\n' else c) :: unifyNewlines rest

/-- The lines of a text that are ended by line feeds, without them. A text that ends in a line
feed has no further line after it. -/
def feedLines : List Char → List (List Char)
  | [] => []
  | c :: rest => if c = '\n' then [] :: feedLines rest else extendFirst c (feedLines rest)

@[simp] theorem flatten_extendFirst (c : Char) (parts : List (List Char)) :
    (extendFirst c parts).flatten = c :: parts.flatten := by
  cases parts <;> simp [extendFirst]

theorem flatten_lines (text : List Char) : (lines text).flatten = text := by
  fun_induction lines text <;> simp_all

end LuaCore.Text
