import LuaCore.Operation

/-!
Tokens: what the words and symbols of a program text are, and where they stand.
-/

namespace LuaCore

/-- A place in a text. Lines and columns count from 1, and only line feeds end a line. -/
structure Position where
  line : Nat := 1
  column : Nat := 1
  deriving DecidableEq

namespace Position

/-- The place behind a character. -/
def next (position : Position) (c : Char) : Position :=
  if c = '\n' then ⟨position.line + 1, 1⟩ else ⟨position.line, position.column + 1⟩

/-- The place behind a text that starts here. -/
def advance (position : Position) (text : List Char) : Position :=
  text.foldl next position

end Position

/-- The reserved words. -/
inductive Keyword where
  | localWord
  | functionWord
  | returnWord
  | ifWord
  | thenWord
  | elseifWord
  | elseWord
  | forWord
  | doWord
  | endWord
  | trueWord
  | falseWord
  | nilWord
  deriving DecidableEq

namespace Keyword

def all : List Keyword :=
  [localWord, functionWord, returnWord, ifWord, thenWord, elseifWord, elseWord, forWord, doWord,
   endWord, trueWord, falseWord, nilWord]

def text : Keyword → String
  | localWord => "local"
  | functionWord => "function"
  | returnWord => "return"
  | ifWord => "if"
  | thenWord => "then"
  | elseifWord => "elseif"
  | elseWord => "else"
  | forWord => "for"
  | doWord => "do"
  | endWord => "end"
  | trueWord => "true"
  | falseWord => "false"
  | nilWord => "nil"

def label : Keyword → String
  | localWord => "LOCAL"
  | functionWord => "FUNCTION"
  | returnWord => "RETURN"
  | ifWord => "IF"
  | thenWord => "THEN"
  | elseifWord => "ELSEIF"
  | elseWord => "ELSE"
  | forWord => "FOR"
  | doWord => "DO"
  | endWord => "END"
  | trueWord => "TRUE"
  | falseWord => "FALSE"
  | nilWord => "NIL"

def ofText? (text : String) : Option Keyword :=
  all.find? fun word => word.text = text

end Keyword

/-- The marks that are neither words nor literals. -/
inductive Symbol where
  | operator (operation : Operation)
  | assign
  | semicolon
  | comma
  | dot
  | leftParenthesis
  | rightParenthesis
  | leftBracket
  | rightBracket
  | leftBrace
  | rightBrace
  deriving DecidableEq

namespace Symbol

def text : Symbol → String
  | operator operation => operation.symbol
  | assign => "="
  | semicolon => ";"
  | comma => ","
  | dot => "."
  | leftParenthesis => "("
  | rightParenthesis => ")"
  | leftBracket => "["
  | rightBracket => "]"
  | leftBrace => "\x7b"
  | rightBrace => "\x7d"

def label : Symbol → String
  | operator .add => "PLUS"
  | operator .subtract => "MINUS"
  | operator .multiply => "STAR"
  | operator .divide => "SLASH"
  | operator .equal => "__ANON_0"
  | operator .lessOrEqual => "__ANON_1"
  | operator .greaterOrEqual => "__ANON_2"
  | operator .less => "LESSTHAN"
  | operator .greater => "MORETHAN"
  | assign => "EQUAL"
  | semicolon => "SEMICOLON"
  | comma => "COMMA"
  | dot => "DOT"
  | leftParenthesis => "LPAR"
  | rightParenthesis => "RPAR"
  | leftBracket => "LSQB"
  | rightBracket => "RSQB"
  | leftBrace => "LBRACE"
  | rightBrace => "RBRACE"

/-- All symbols, the longer ones first, so that the first one found is the longest. -/
def all : List Symbol :=
  [operator .equal, operator .lessOrEqual, operator .greaterOrEqual, operator .less,
   operator .greater, operator .add, operator .subtract, operator .multiply, operator .divide,
   assign, semicolon, comma, dot, leftParenthesis, rightParenthesis, leftBracket, rightBracket,
   leftBrace, rightBrace]

end Symbol

/-- The kinds of tokens. The end of the text counts as a token of its own. -/
inductive Token.Kind where
  | number
  | string
  | name
  | keyword (word : Keyword)
  | symbol (mark : Symbol)
  | finish
  deriving DecidableEq

/-- The published name of a kind. -/
def Token.Kind.label : Token.Kind → String
  | number => "NUMBER"
  | string => "STRING"
  | name => "NAME"
  | keyword word => word.label
  | symbol mark => mark.label
  | finish => "$END"

structure Token where
  kind : Token.Kind
  text : String
  position : Position
  deriving DecidableEq

end LuaCore
