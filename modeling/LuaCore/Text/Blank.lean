import LuaCore.Text.Ranges

/-!
White space, and the trimming of typed lines and numbers.
-/

namespace LuaCore.Text

/-- The characters of the property White_Space. -/
def whiteSpace : Ranges :=
  [(0x9, 0xD), (0x20, 0x20), (0x85, 0x85), (0xA0, 0xA0), (0x1680, 0x1680), (0x2000, 0x200A),
   (0x2028, 0x2029), (0x202F, 0x202F), (0x205F, 0x205F), (0x3000, 0x3000)]

def informationSeparators : Ranges :=
  [(0x1C, 0x1F)]

def isWhiteSpace (c : Char) : Bool :=
  whiteSpace.contains c.toNat

/-- White space of any script, and the four information separators. -/
def isBlank (c : Char) : Bool :=
  isWhiteSpace c || informationSeparators.contains c.toNat

/-- A text without the characters of a class at its end. -/
def dropEnd (drops : Char → Bool) (text : List Char) : List Char :=
  (text.reverse.dropWhile drops).reverse

/-- A text without the characters of a class around it. -/
def dropAround (drops : Char → Bool) (text : List Char) : List Char :=
  dropEnd drops (text.dropWhile drops)

def trimRight (text : List Char) : List Char :=
  dropEnd isBlank text

def trim (text : List Char) : List Char :=
  dropAround isBlank text

/-- A number without the white space around it. Information separators are not taken for that. -/
def trimNumber (text : List Char) : List Char :=
  dropAround isWhiteSpace text

end LuaCore.Text
