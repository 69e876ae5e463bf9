import LuaCore.Token.Lexer

/-!
The terminals of program text, as regular expressions. A pattern gives all the rests that it can
leave of a text, in the order in which a backtracking search finds them, so that the first one is
what it matches. A text is cut by the first terminal of a fixed list that matches at all.
-/

namespace LuaCore.Lexer

inductive Pattern where
  | nothing
  | one (test : Char → Bool)
  | both (first second : Pattern)
  | either (first second : Pattern)
  /-- As often as possible. -/
  | many (inner : Pattern)
  /-- As rarely as possible. -/
  | few (inner : Pattern)

namespace Pattern

/-- The rests after a step is taken again and again, the longest way first. -/
def greedy (step : List Char → List (List Char)) : Nat → List Char → List (List Char)
  | 0, text => [text]
  | bound + 1, text => (step text).flatMap (greedy step bound) ++ [text]

/-- The rests after a step is taken again and again, the shortest way first. -/
def lazy (step : List Char → List (List Char)) : Nat → List Char → List (List Char)
  | 0, text => [text]
  | bound + 1, text => text :: (step text).flatMap (lazy step bound)

/-- What a pattern can leave of a text. A repetition takes at least one character each time, so
that the length of the text bounds it. -/
def rests : Pattern → List Char → List (List Char)
  | nothing, text => [text]
  | one _, [] => []
  | one test, c :: rest => if test c then [rest] else []
  | both first second, text => (first.rests text).flatMap second.rests
  | either first second, text => first.rests text ++ second.rests text
  | many inner, text => greedy inner.rests text.length text
  | few inner, text => lazy inner.rests text.length text

/-- What is left of a text behind a match at its start. -/
def rest? (pattern : Pattern) (text : List Char) : Option (List Char) :=
  (pattern.rests text).head?

def exactly : List Char → Pattern
  | [] => nothing
  | c :: rest => both (one (· == c)) (exactly rest)

def oneOf (chars : List Char) : Pattern :=
  one chars.contains

def noneOf (chars : List Char) : Pattern :=
  one fun c => !chars.contains c

/-- Once or more, as often as possible. -/
def oneOrMore (pattern : Pattern) : Pattern :=
  both pattern (many pattern)

def optional (pattern : Pattern) : Pattern :=
  either pattern nothing

end Pattern

/-- The terminals that texts are cut by. Reserved words are names first. -/
inductive Terminal where
  | longComment
  | comment
  | number
  | string
  | name
  | blank
  | symbol (mark : Symbol)

namespace Terminal

open Pattern

def exponentPattern : Pattern :=
  both (oneOf ['e', 'E']) (both (optional (oneOf ['+', '-'])) (oneOrMore (one Text.isDecimalDigit)))

def decimalPattern : Pattern :=
  let digit := one Text.isDecimalDigit
  both
    (either (both (oneOrMore digit) (both (exactly ['.']) (many digit)))
      (either (both (exactly ['.']) (oneOrMore digit)) (oneOrMore digit)))
    (optional exponentPattern)

def hexadecimalPattern : Pattern :=
  both (exactly ['0']) (both (oneOf ['x', 'X']) (oneOrMore (one Text.isHexDigit)))

/-- A literal between two equal marks. A backslash takes the next character with it. -/
def quotedPattern (mark : Char) : Pattern :=
  both (exactly [mark])
    (both
      (many (either (noneOf [mark, '\\', '\r', '\n']) (both (exactly ['\\']) (noneOf ['\n']))))
      (exactly [mark]))

def pattern : Terminal → Pattern
  | longComment =>
      both (exactly ['-', '-', '[', '[']) (both (few (one fun _ => true)) (exactly [']', ']']))
  | comment => both (exactly ['-', '-']) (many (noneOf ['\r', '\n']))
  | number => either hexadecimalPattern decimalPattern
  | string => either (quotedPattern '"') (quotedPattern '\'')
  | name => both (one isLetter) (many (one isNamePart))
  | blank => oneOrMore (oneOf [' ', '\t', '\x0c', '\r', '\n'])
  | symbol mark => exactly mark.text.toList

/-- The terminals in the order in which they are tried. -/
def all : List Terminal :=
  [longComment, comment, number, string, name, blank] ++ Symbol.all.map symbol

/-- The kind of the token that a terminal makes of its match, unless the match is passed over. -/
def kind? : Terminal → List Char → Option Token.Kind
  | longComment, _ | comment, _ | blank, _ => none
  | number, _ => some .number
  | string, _ => some .string
  | name, text => some (wordKind text)
  | symbol mark, _ => some (.symbol mark)

/-- The first terminal that matches, and what is left of the text behind its match. -/
def first? (text : List Char) : Option (Terminal × List Char) :=
  all.findSome? fun terminal => (terminal.pattern.rest? text).map (terminal, ·)

end Terminal

/-- The tokens lead from one place in a text to another. Blanks and comments are passed over. -/
inductive Lexes : Position → List Char → List Token → Position → List Char → Prop where
  | refl (position : Position) (text : List Char) : Lexes position text [] position text
  | ignored {position place : Position} {lexeme rest more : List Char} {tokens : List Token}
      {terminal : Terminal} (first : Terminal.first? (lexeme ++ rest) = some (terminal, rest))
      (silent : terminal.kind? lexeme = none)
      (lexes : Lexes (position.advance lexeme) rest tokens place more) :
      Lexes position (lexeme ++ rest) tokens place more
  | token {position place : Position} {lexeme rest more : List Char} {tokens : List Token}
      {terminal : Terminal} {kind : Token.Kind}
      (first : Terminal.first? (lexeme ++ rest) = some (terminal, rest))
      (sounds : terminal.kind? lexeme = some kind)
      (lexes : Lexes (position.advance lexeme) rest tokens place more) :
      Lexes position (lexeme ++ rest) (⟨kind, String.ofList lexeme, position⟩ :: tokens) place more

end LuaCore.Lexer
