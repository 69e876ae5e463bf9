import LuaCore.Tree

/-!
The grammar of programs. A derivation has one constructor for each production, and keeps every
token it is made of: `tokens` is the text that it derives, `tree` is what is left of it when words,
marks and parentheses are dropped. Expressions are stacked in levels: 0 are comparisons, 1 sums,
2 products, 3 negations, 4 the chains of dots, brackets and calls, and 5 what stands alone.
-/

namespace LuaCore.Tree.Grammar

/-- A token of a certain kind. -/
structure Lexeme (kind : Token.Kind) where
  text : String
  position : Position

def Lexeme.token {kind : Token.Kind} (lexeme : Lexeme kind) : Token :=
  ⟨kind, lexeme.text, lexeme.position⟩

theorem lexeme_exists {token : Token} {kind : Token.Kind} (same : token.kind = kind) :
    ∃ lexeme : Lexeme kind, lexeme.token = token := by
  obtain ⟨_, text, position⟩ := token
  cases same
  exact ⟨⟨text, position⟩, rfl⟩

abbrev Word (word : Keyword) := Lexeme (.keyword word)

abbrev Mark (mark : Symbol) := Lexeme (.symbol mark)

abbrev Name := Lexeme .name

/-- What stands between two fields of a table. -/
inductive Separator where
  | comma (mark : Mark .comma)
  | semicolon (mark : Mark .semicolon)

def Separator.token : Separator → Token
  | comma mark | semicolon mark => mark.token

/-- The names between the parentheses of a function. -/
inductive Parameters where
  | none
  | some (first : Name) (others : List (Mark .comma × Name))

namespace Parameters

def moreTokens : List (Mark .comma × Name) → List Token
  | [] => []
  | next :: rest => next.1.token :: next.2.token :: moreTokens rest

def tokens : Parameters → List Token
  | none => []
  | some first others => first.token :: moreTokens others

def names : Parameters → List String
  | none => []
  | some first others => first.text :: others.map fun next => next.2.text

end Parameters

inductive Category where
  | block
  | statements
  | closing
  | statement
  | branches
  | alternative
  | arguments
  | moreArguments
  | fields
  | moreFields
  | field
  | level (level : Nat)

abbrev Category.expression : Category := .level 0

/-- What a phrase of a category stands for. -/
abbrev Category.Result : Category → Type
  | .block | .statements | .closing | .statement => List Statement
  | .branches => List Branch
  | .alternative => Option Block
  | .arguments | .moreArguments => List Expression
  | .fields | .moreFields => List Field
  | .field => Field
  | .level _ => Expression

inductive Derivation : Category → Type where
  | block (statements : Derivation .statements) (closing : Derivation .closing) :
      Derivation .block
  | noStatements : Derivation .statements
  | moreStatements (first : Derivation .statement) (others : Derivation .statements) :
      Derivation .statements
  | noReturn : Derivation .closing
  | returnsNothing (word : Word .returnWord) (stop : Option (Mark .semicolon)) :
      Derivation .closing
  | returns (word : Word .returnWord) (value : Derivation .expression)
      (stop : Option (Mark .semicolon)) : Derivation .closing
  | empty (mark : Mark .semicolon) : Derivation .statement
  | declare (word : Word .localWord) (name : Name) : Derivation .statement
  | declareAs (word : Word .localWord) (name : Name) (sign : Mark .assign)
      (value : Derivation .expression) : Derivation .statement
  | function (word : Word .functionWord) (name : Name) (left : Mark .leftParenthesis)
      (parameters : Parameters) (right : Mark .rightParenthesis) (body : Derivation .block)
      (finish : Word .endWord) : Derivation .statement
  | choose (word : Word .ifWord) (condition : Derivation .expression) (follows : Word .thenWord)
      (body : Derivation .block) (others : Derivation .branches)
      (otherwise : Derivation .alternative) (finish : Word .endWord) : Derivation .statement
  | loop (word : Word .forWord) (counter : Name) (sign : Mark .assign)
      (start : Derivation .expression) (comma : Mark .comma) (limit : Derivation .expression)
      (follows : Word .doWord) (body : Derivation .block) (finish : Word .endWord) :
      Derivation .statement
  | loopBy (word : Word .forWord) (counter : Name) (sign : Mark .assign)
      (start : Derivation .expression) (comma : Mark .comma) (limit : Derivation .expression)
      (comma' : Mark .comma) (step : Derivation .expression)
      (follows : Word .doWord) (body : Derivation .block) (finish : Word .endWord) :
      Derivation .statement
  | assign (target : Derivation .expression) (sign : Mark .assign)
      (value : Derivation .expression) : Derivation .statement
  | evaluate (expression : Derivation .expression) : Derivation .statement
  | noBranches : Derivation .branches
  | moreBranches (word : Word .elseifWord) (condition : Derivation .expression)
      (follows : Word .thenWord) (body : Derivation .block) (others : Derivation .branches) :
      Derivation .branches
  | noAlternative : Derivation .alternative
  | alternative (word : Word .elseWord) (body : Derivation .block) : Derivation .alternative
  | noArguments : Derivation .arguments
  | arguments (first : Derivation .expression) (others : Derivation .moreArguments) :
      Derivation .arguments
  | noMoreArguments : Derivation .moreArguments
  | moreArguments (comma : Mark .comma) (next : Derivation .expression)
      (others : Derivation .moreArguments) : Derivation .moreArguments
  | noFields : Derivation .fields
  | fields (first : Derivation .field) (others : Derivation .moreFields)
      (last : Option Separator) : Derivation .fields
  | noMoreFields : Derivation .moreFields
  | moreFields (separator : Separator) (next : Derivation .field)
      (others : Derivation .moreFields) : Derivation .moreFields
  | positional (value : Derivation .expression) : Derivation .field
  | named (name : Name) (sign : Mark .assign) (value : Derivation .expression) :
      Derivation .field
  | keyed (left : Mark .leftBracket) (key : Derivation .expression) (right : Mark .rightBracket)
      (sign : Mark .assign) (value : Derivation .expression) : Derivation .field
  /-- An expression of one level is an expression of the level below. -/
  | operand {level : Nat} (bound : level < 5) (inner : Derivation (.level (level + 1))) :
      Derivation (.level level)
  /-- An operator has its own level on its left and the next one on its right. -/
  | binary {level : Nat} (lhs : Derivation (.level level)) (operation : Operation)
      (fits : operation.level = level) (mark : Mark (.operator operation))
      (rhs : Derivation (.level (level + 1))) : Derivation (.level level)
  | negate (mark : Mark (.operator .subtract)) (inner : Derivation (.level 3)) :
      Derivation (.level 3)
  | dot (target : Derivation (.level 4)) (mark : Mark .dot) (name : Name) : Derivation (.level 4)
  | index (target : Derivation (.level 4)) (left : Mark .leftBracket)
      (key : Derivation .expression) (right : Mark .rightBracket) : Derivation (.level 4)
  | call (callee : Derivation (.level 4)) (left : Mark .leftParenthesis)
      (values : Derivation .arguments) (right : Mark .rightParenthesis) : Derivation (.level 4)
  | number (numeral : Lexeme .number) : Derivation (.level 5)
  | string (quoted : Lexeme .string) : Derivation (.level 5)
  | truth (word : Word .trueWord) : Derivation (.level 5)
  | falsehood (word : Word .falseWord) : Derivation (.level 5)
  | nil (word : Word .nilWord) : Derivation (.level 5)
  | reference (name : Name) : Derivation (.level 5)
  | table (left : Mark .leftBrace) (entries : Derivation .fields) (right : Mark .rightBrace) :
      Derivation (.level 5)
  | literal (word : Word .functionWord) (left : Mark .leftParenthesis) (parameters : Parameters)
      (right : Mark .rightParenthesis) (body : Derivation .block) (finish : Word .endWord) :
      Derivation (.level 5)
  | parentheses (left : Mark .leftParenthesis) (inner : Derivation .expression)
      (right : Mark .rightParenthesis) : Derivation (.level 5)

def optionalTokens : Option (Mark .semicolon) → List Token
  | none => []
  | some mark => [mark.token]

def lastSeparator : Option Separator → List Token
  | none => []
  | some separator => [separator.token]

/-- The place where a text of tokens starts. -/
def startOf (tokens : List Token) : Position :=
  (tokens.head?.map Token.position).getD {}

namespace Derivation

def tokens : {category : Category} → Derivation category → List Token
  | _, block statements closing => statements.tokens ++ closing.tokens
  | _, noStatements => []
  | _, moreStatements first others => first.tokens ++ others.tokens
  | _, noReturn => []
  | _, returnsNothing word stop => word.token :: optionalTokens stop
  | _, returns word value stop => word.token :: (value.tokens ++ optionalTokens stop)
  | _, empty mark => [mark.token]
  | _, declare word name => [word.token, name.token]
  | _, declareAs word name sign value => word.token :: name.token :: sign.token :: value.tokens
  | _, function word name left parameters right body finish =>
      word.token :: name.token :: left.token ::
        (parameters.tokens ++ right.token :: (body.tokens ++ [finish.token]))
  | _, choose word condition follows body others otherwise finish =>
      word.token :: (condition.tokens ++ follows.token ::
        (body.tokens ++ (others.tokens ++ (otherwise.tokens ++ [finish.token]))))
  | _, loop word counter sign start comma limit follows body finish =>
      word.token :: counter.token :: sign.token :: (start.tokens ++ comma.token ::
        (limit.tokens ++ follows.token :: (body.tokens ++ [finish.token])))
  | _, loopBy word counter sign start comma limit comma' step follows body finish =>
      word.token :: counter.token :: sign.token :: (start.tokens ++ comma.token ::
        (limit.tokens ++ comma'.token ::
          (step.tokens ++ follows.token :: (body.tokens ++ [finish.token]))))
  | _, assign target sign value => target.tokens ++ sign.token :: value.tokens
  | _, evaluate expression => expression.tokens
  | _, noBranches => []
  | _, moreBranches word condition follows body others =>
      word.token :: (condition.tokens ++ follows.token :: (body.tokens ++ others.tokens))
  | _, noAlternative => []
  | _, alternative word body => word.token :: body.tokens
  | _, noArguments => []
  | _, arguments first others => first.tokens ++ others.tokens
  | _, noMoreArguments => []
  | _, moreArguments comma next others => comma.token :: (next.tokens ++ others.tokens)
  | _, noFields => []
  | _, fields first others last => first.tokens ++ (others.tokens ++ lastSeparator last)
  | _, noMoreFields => []
  | _, moreFields separator next others => separator.token :: (next.tokens ++ others.tokens)
  | _, positional value => value.tokens
  | _, named name sign value => name.token :: sign.token :: value.tokens
  | _, keyed left key right sign value =>
      left.token :: (key.tokens ++ right.token :: sign.token :: value.tokens)
  | _, operand _ inner => inner.tokens
  | _, binary lhs _ _ mark rhs => lhs.tokens ++ mark.token :: rhs.tokens
  | _, negate mark inner => mark.token :: inner.tokens
  | _, dot target mark name => target.tokens ++ [mark.token, name.token]
  | _, index target left key right => target.tokens ++ left.token :: (key.tokens ++ [right.token])
  | _, call callee left values right =>
      callee.tokens ++ left.token :: (values.tokens ++ [right.token])
  | _, number numeral => [numeral.token]
  | _, string quoted => [quoted.token]
  | _, truth word => [word.token]
  | _, falsehood word => [word.token]
  | _, nil word => [word.token]
  | _, reference name => [name.token]
  | _, table left entries right => left.token :: (entries.tokens ++ [right.token])
  | _, literal word left parameters right body finish =>
      word.token :: left.token ::
        (parameters.tokens ++ right.token :: (body.tokens ++ [finish.token]))
  | _, parentheses left inner right => left.token :: (inner.tokens ++ [right.token])

def tree : {category : Category} → Derivation category → category.Result
  | _, block statements closing => statements.tree ++ closing.tree
  | _, noStatements => []
  | _, moreStatements first others => first.tree ++ others.tree
  | _, noReturn => []
  | _, returnsNothing _ _ => [.returns none]
  | _, returns _ value _ => [.returns (some value.tree)]
  | _, empty _ => []
  | _, declare _ name => [.declare name.text none]
  | _, declareAs _ name _ value => [.declare name.text (some value.tree)]
  | _, function _ name _ parameters _ body _ =>
      [.function name.text parameters.names body.tree]
  | _, choose _ condition _ body others otherwise _ =>
      [.choose (.mk condition.tree body.tree) others.tree otherwise.tree]
  | _, loop _ counter _ start _ limit _ body _ =>
      [.loop counter.text start.tree limit.tree none body.tree]
  | _, loopBy _ counter _ start _ limit _ step _ body _ =>
      [.loop counter.text start.tree limit.tree (some step.tree) body.tree]
  | _, assign target _ value => [.assign (startOf target.tokens) target.tree value.tree]
  | _, evaluate expression => [.evaluate expression.tree]
  | _, noBranches => []
  | _, moreBranches _ condition _ body others => .mk condition.tree body.tree :: others.tree
  | _, noAlternative => none
  | _, alternative _ body => some body.tree
  | _, noArguments => []
  | _, arguments first others => first.tree :: others.tree
  | _, noMoreArguments => []
  | _, moreArguments _ next others => next.tree :: others.tree
  | _, noFields => []
  | _, fields first others _ => first.tree :: others.tree
  | _, noMoreFields => []
  | _, moreFields _ next others => next.tree :: others.tree
  | _, positional value => .positional value.tree
  | _, named name _ value => .named name.text value.tree
  | _, keyed _ key _ _ value => .keyed key.tree value.tree
  | _, operand _ inner => inner.tree
  | _, binary lhs operation _ _ rhs => .binary lhs.tree operation rhs.tree
  | _, negate _ inner => .negate inner.tree
  | _, dot target _ name => .dot target.tree name.text
  | _, index target _ key _ => .index target.tree key.tree
  | _, call callee _ values _ => .call callee.tree values.tree
  | _, number numeral => .number numeral.text
  | _, string quoted => .string quoted.text
  | _, truth _ => .boolean true
  | _, falsehood _ => .boolean false
  | _, nil _ => .nil
  | _, reference name => .name name.text
  | _, table _ entries _ => .table entries.tree
  | _, literal _ _ parameters _ body _ => .function parameters.names body.tree
  | _, parentheses _ inner _ => inner.tree

/-- Whether a statement ends with an expression, which a token behind it could continue. -/
def EndsInExpression : Derivation .statement → Prop
  | declareAs .. | assign .. | evaluate .. => True
  | _ => False

end Derivation

/-- The two tokens that can start a statement and can also continue an expression. -/
def IsGlue (kind : Token.Kind) : Prop :=
  kind = .symbol .leftParenthesis ∨ kind = .symbol (.operator .subtract)

/-- A derivation in which no statement that ends with an expression is followed by one that
starts with an opening parenthesis or a minus sign. -/
def Derivation.Resolved : {category : Category} → Derivation category → Prop
  | _, block statements closing => statements.Resolved ∧ closing.Resolved
  | _, noStatements => True
  | _, moreStatements first others =>
      first.Resolved ∧ others.Resolved ∧
        (first.EndsInExpression → ∀ token ∈ others.tokens.head?, ¬ IsGlue token.kind)
  | _, noReturn => True
  | _, returnsNothing .. => True
  | _, returns _ value _ => value.Resolved
  | _, empty _ => True
  | _, declare .. => True
  | _, declareAs _ _ _ value => value.Resolved
  | _, function _ _ _ _ _ body _ => body.Resolved
  | _, choose _ condition _ body others otherwise _ =>
      condition.Resolved ∧ body.Resolved ∧ others.Resolved ∧ otherwise.Resolved
  | _, loop _ _ _ start _ limit _ body _ => start.Resolved ∧ limit.Resolved ∧ body.Resolved
  | _, loopBy _ _ _ start _ limit _ step _ body _ =>
      start.Resolved ∧ limit.Resolved ∧ step.Resolved ∧ body.Resolved
  | _, assign target _ value => target.Resolved ∧ value.Resolved
  | _, evaluate expression => expression.Resolved
  | _, noBranches => True
  | _, moreBranches _ condition _ body others =>
      condition.Resolved ∧ body.Resolved ∧ others.Resolved
  | _, noAlternative => True
  | _, alternative _ body => body.Resolved
  | _, noArguments => True
  | _, arguments first others => first.Resolved ∧ others.Resolved
  | _, noMoreArguments => True
  | _, moreArguments _ next others => next.Resolved ∧ others.Resolved
  | _, noFields => True
  | _, fields first others _ => first.Resolved ∧ others.Resolved
  | _, noMoreFields => True
  | _, moreFields _ next others => next.Resolved ∧ others.Resolved
  | _, positional value => value.Resolved
  | _, named _ _ value => value.Resolved
  | _, keyed _ key _ _ value => key.Resolved ∧ value.Resolved
  | _, operand _ inner => inner.Resolved
  | _, binary lhs _ _ _ rhs => lhs.Resolved ∧ rhs.Resolved
  | _, negate _ inner => inner.Resolved
  | _, dot target _ _ => target.Resolved
  | _, index target _ key _ => target.Resolved ∧ key.Resolved
  | _, call callee _ values _ => callee.Resolved ∧ values.Resolved
  | _, number _ => True
  | _, string _ => True
  | _, truth _ => True
  | _, falsehood _ => True
  | _, nil _ => True
  | _, reference _ => True
  | _, table _ entries _ => entries.Resolved
  | _, literal _ _ _ _ body _ => body.Resolved
  | _, parentheses _ inner _ => inner.Resolved

end LuaCore.Tree.Grammar
