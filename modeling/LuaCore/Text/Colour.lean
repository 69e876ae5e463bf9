/-!
Codes that control a terminal: an escape character, a bracket, parameters, and a character that ends
the code. Stripping removes every code of a form, from left to right, and keeps everything else.
-/

namespace LuaCore.Text

/-- A form of codes: what may stand as a parameter, and what ends a code. -/
structure CodeForm where
  isParameter : Char → Bool
  isEnd : Char → Bool

namespace CodeForm

/-- Colour codes have digits and semicolons as parameters, and end with an `m`. -/
def colour : CodeForm where
  isParameter c := ('0' ≤ c && c ≤ '9') || c == ';'
  isEnd c := c == 'm'

/-- Codes in general have question marks as parameters too, and end with any letter. -/
def control : CodeForm where
  isParameter c := colour.isParameter c || c == '?'
  isEnd := Char.isAlpha

end CodeForm

/-- The text after a code, if the text begins with one. -/
def afterCode? (form : CodeForm) : List Char → Option (List Char)
  | '\x1b' :: '[' :: rest =>
      match rest.dropWhile form.isParameter with
      | last :: tail => if form.isEnd last then some tail else none
      | [] => none
  | _ => none

theorem afterCode?_length {form : CodeForm} {text tail : List Char}
    (found : afterCode? form text = some tail) : tail.length < text.length := by
  unfold afterCode? at found
  split at found
  · rename_i rest
    split at found
    · rename_i last after next
      have shorter := (List.dropWhile_suffix form.isParameter (l := rest)).length_le
      rw [next] at shorter
      split at found
      · cases found
        simp only [List.length_cons] at shorter ⊢
        omega
      · cases found
    · cases found
  · cases found

/-- The text without its codes of a form. -/
def strip (form : CodeForm) (text : List Char) : List Char :=
  match text with
  | [] => []
  | c :: rest =>
      match _found : afterCode? form (c :: rest) with
      | some tail => strip form tail
      | none => c :: strip form rest
termination_by text.length
decreasing_by
  · exact afterCode?_length _found
  · simp

end LuaCore.Text
