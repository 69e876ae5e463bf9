import LuaCore.Double.Numeral
import LuaCore.Fault

/-!
What literals stand for. In a string literal a backslash starts an escape: up to three decimal
digits of any script give a character by its number, some characters stand for a control
character or for themselves, and any other one stands for itself behind its backslash.
-/

namespace LuaCore.Literal

/-- The characters that an escape by one character stands for. -/
def escaped : Char → List Char
  | 'n' => ['\n']
  | 't' => ['\t']
  | 'r' => ['\r']
  | 'a' => ['\x07']
  | 'b' => ['\x08']
  | 'f' => ['\x0c']
  | 'v' => ['\x0b']
  | '\\' => ['\\']
  | '"' => ['"']
  | '\'' => ['\'']
  | '\n' => ['\n']
  | c => ['\\', c]

/-- The digits of an escape by number. -/
def escapeDigits (text : List Char) : List Char :=
  (text.take 3).takeWhile Text.isDecimalDigit

/-- The text between the marks of a literal with its escapes replaced. -/
def unescape : List Char → Except Fault (List Char)
  | [] => .ok []
  | '\\' :: [] => .ok ['\\']
  | '\\' :: c :: rest =>
      match escapeDigits (c :: rest) with
      | [] =>
          if Text.isOrnamentalDigit c then .error (.escape c)
          else (unescape rest).map (escaped c ++ ·)
      | digit :: digits =>
          (unescape (rest.drop digits.length)).map
            (Char.ofNat (Double.decimalValue (digit :: digits)) :: ·)
  | c :: rest => (unescape rest).map (c :: ·)
termination_by text => text.length
decreasing_by
  all_goals simp only [List.length_drop, List.length_cons]
  all_goals omega

/-- The text that a string literal stands for. -/
def string (literal : String) : Except Fault String :=
  (unescape (literal.toList.drop 1).dropLast).map String.ofList

/-- The number that a numeral stands for. -/
def number (numeral : String) : Except Fault Float :=
  match Double.Numeral.read? numeral.toList with
  | some x => .ok x
  | none => .error .numeral

end LuaCore.Literal
