import LuaCore.Text.Digit
import LuaCore.Token

/-!
Program text cut into pieces: tokens, blanks and comments. At each place the first kind of piece
that matches is taken, in the order of `kind?`, and as far as it reaches. The pieces in order are
the text up to the first place where nothing matches.
-/

namespace LuaCore.Lexer

/-- What a piece is: a token, or something that a reader passes over. -/
inductive Piece.Kind where
  | token (kind : Token.Kind)
  | blank
  | comment
  | longComment
  deriving DecidableEq

structure Piece where
  kind : Piece.Kind
  text : List Char
  position : Position
  deriving DecidableEq

def isBlank (c : Char) : Bool :=
  c == ' ' || c == '\t' || c == '\x0c' || c == '\r' || c == '\n'

def isLetter (c : Char) : Bool :=
  ('A' ≤ c && c ≤ 'Z') || ('a' ≤ c && c ≤ 'z') || c == '_'

/-- Letters, underscores and digits, of which names are made. -/
def isNamePart (c : Char) : Bool :=
  isLetter c || ('0' ≤ c && c ≤ '9')

/-- How many characters at the start of a text satisfy a test. -/
def run (test : Char → Bool) (text : List Char) : Nat :=
  (text.takeWhile test).length

/-- How many characters there are up to the first `]]` and with it. -/
def closing? : List Char → Option Nat
  | [] => none
  | ']' :: ']' :: _ => some 2
  | _ :: rest => (closing? rest).map (· + 1)

/-- The length of a comment in long brackets that are closed somewhere. -/
def longComment? : List Char → Option Nat
  | '-' :: '-' :: '[' :: '[' :: rest => (closing? rest).map (· + 4)
  | _ => none

/-- The length of a comment up to the end of its line. -/
def comment? : List Char → Option Nat
  | '-' :: '-' :: rest => some (run (fun c => c != '\r' && c != '\n') rest + 2)
  | _ => none

/-- The length of a hexadecimal numeral. -/
def hexadecimal? : List Char → Option Nat
  | '0' :: mark :: first :: rest =>
      if (mark == 'x' || mark == 'X') && Text.isHexDigit first
      then some (run Text.isHexDigit rest + 3) else none
  | _ => none

/-- The length of the digits of an exponent, with its sign. -/
def exponentDigits : List Char → Nat
  | sign :: rest =>
      if sign == '+' || sign == '-' then
        match run Text.isDecimalDigit rest with
        | 0 => 0
        | digits + 1 => digits + 2
      else run Text.isDecimalDigit (sign :: rest)
  | [] => 0

/-- The length of an exponent, which is 0 if no digits follow the mark. -/
def exponent : List Char → Nat
  | mark :: rest =>
      if mark == 'e' || mark == 'E' then
        match exponentDigits rest with
        | 0 => 0
        | digits + 1 => digits + 2
      else 0
  | [] => 0

/-- The length of the digits of a decimal numeral and of its point. -/
def mantissa? (text : List Char) : Option Nat :=
  match run Text.isDecimalDigit text, text.dropWhile Text.isDecimalDigit with
  | 0, '.' :: rest =>
      match run Text.isDecimalDigit rest with
      | 0 => none
      | digits + 1 => some (digits + 2)
  | 0, _ => none
  | whole + 1, '.' :: rest => some (whole + 2 + run Text.isDecimalDigit rest)
  | whole + 1, _ => some (whole + 1)

/-- The length of a decimal numeral. -/
def decimal? (text : List Char) : Option Nat :=
  (mantissa? text).map fun length => length + exponent (text.drop length)

def number? (text : List Char) : Option Nat :=
  (hexadecimal? text).or (decimal? text)

/-- The length of the rest of a string literal, from inside it to its closing mark. A line end
belongs to no literal; a carriage return does behind a backslash. -/
def stringRest? (mark : Char) : List Char → Option Nat
  | [] => none
  | '\\' :: c :: rest => if c = '\n' then none else (stringRest? mark rest).map (· + 2)
  | c :: rest =>
      if c = mark then some 1
      else if c = '\\' ∨ c = '\r' ∨ c = '\n' then none
      else (stringRest? mark rest).map (· + 1)

def string? : List Char → Option Nat
  | mark :: rest =>
      if mark == '"' || mark == '\'' then (stringRest? mark rest).map (· + 1) else none
  | [] => none

/-- The length of a name or a reserved word. -/
def word? : List Char → Option Nat
  | first :: rest => if isLetter first then some (run isNamePart rest + 1) else none
  | [] => none

def wordKind (text : List Char) : Token.Kind :=
  match Keyword.ofText? (String.ofList text) with
  | some word => .keyword word
  | none => .name

def blank? : List Char → Option Nat
  | first :: rest => if isBlank first then some (run isBlank rest + 1) else none
  | [] => none

def symbol? (text : List Char) : Option Symbol :=
  Symbol.all.find? fun symbol => symbol.text.toList.isPrefixOf text

/-- The kind and the length of the piece that a text starts with. -/
def kind? (text : List Char) : Option (Piece.Kind × Nat) :=
  (longComment? text).map (.longComment, ·)
  |>.or ((comment? text).map (.comment, ·))
  |>.or ((number? text).map (.token .number, ·))
  |>.or ((string? text).map (.token .string, ·))
  |>.or ((word? text).map fun length => (.token (wordKind (text.take length)), length))
  |>.or ((blank? text).map (.blank, ·))
  |>.or ((symbol? text).map fun symbol => (.token (.symbol symbol), symbol.text.length))

/-- The pieces of a text, and the character at which nothing matched, if the text was not cut up
to its end. -/
def pieces (position : Position) : List Char → List Piece × Option (Char × Position)
  | [] => ([], none)
  | first :: rest =>
      match kind? (first :: rest) with
      | none => ([], some (first, position))
      | some (kind, length) =>
          let text := first :: rest.take (length - 1)
          let after := pieces (position.advance text) (rest.drop (length - 1))
          (⟨kind, text, position⟩ :: after.1, after.2)
termination_by text => text.length
decreasing_by
  simp only [List.length_drop, List.length_cons]
  omega

def Piece.token? (piece : Piece) : Option Token :=
  match piece.kind with
  | .token kind => some ⟨kind, String.ofList piece.text, piece.position⟩
  | _ => none

/-- The tokens of a text, and the character at which they stop short of its end. -/
structure Scan where
  tokens : List Token
  stuck : Option (Char × Position)

def scan (text : String) : Scan :=
  let cut := pieces {} text.toList
  ⟨cut.1.filterMap Piece.token?, cut.2⟩

end LuaCore.Lexer
