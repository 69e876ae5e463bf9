import LuaCore.Tree

/-!
Reading a tree from tokens, one token at a time. The state between two tokens is the part of a
tree that was read last together with its context, which is the rest of the tree so far, inside
out. A state refuses a token that no program can have at this place. An operator, a dot, an opening
bracket or an opening parenthesis behind an expression always continues it.
-/

namespace LuaCore.Tree

/-- An operator that still waits for its right operand. -/
inductive Pending where
  | negate
  | binary (lhs : Expression) (operation : Operation)

/-- What a context surrounds. -/
inductive Hole where
  | block
  | expression

/-- The branches of a choice that are complete, if there are any. -/
abbrev Branches := Option (Branch × List Branch)

def Branches.extend (branches : Branches) (branch : Branch) : Branch × List Branch :=
  match branches with
  | none => (branch, [])
  | some (first, others) => (first, others ++ [branch])

/-- What surrounds a block or an expression. The lists of what was read before it run backwards,
and the first of the pending operators is the innermost one. -/
inductive Context : Hole → Type where
  | chunk : Context .block
  | declaration (name : String) (parameters : List String)
      (before : Block) (outer : Context .block) : Context .block
  | literal (parameters : List String)
      (pending : List Pending) (outer : Context .expression) : Context .block
  | branch (earlier : Branches) (condition : Expression)
      (before : Block) (outer : Context .block) : Context .block
  | otherwise (first : Branch) (others : List Branch)
      (before : Block) (outer : Context .block) : Context .block
  | rounds (counter : String) (start limit : Expression) (step : Option Expression)
      (before : Block) (outer : Context .block) : Context .block
  | evaluated (start : Position) (before : Block) (outer : Context .block) : Context .expression
  | assigned (start : Position) (target : Expression)
      (before : Block) (outer : Context .block) : Context .expression
  | declared (name : String) (before : Block) (outer : Context .block) : Context .expression
  | returned (before : Block) (outer : Context .block) : Context .expression
  | condition (earlier : Branches) (before : Block) (outer : Context .block) : Context .expression
  | loopStart (counter : String) (before : Block) (outer : Context .block) : Context .expression
  | loopLimit (counter : String) (start : Expression)
      (before : Block) (outer : Context .block) : Context .expression
  | loopStep (counter : String) (start limit : Expression)
      (before : Block) (outer : Context .block) : Context .expression
  | parentheses (pending : List Pending) (outer : Context .expression) : Context .expression
  | key (target : Expression)
      (pending : List Pending) (outer : Context .expression) : Context .expression
  | argument (callee : Expression) (earlier : List Expression)
      (pending : List Pending) (outer : Context .expression) : Context .expression
  | positional (earlier : List Field)
      (pending : List Pending) (outer : Context .expression) : Context .expression
  | named (earlier : List Field) (name : String)
      (pending : List Pending) (outer : Context .expression) : Context .expression
  | fieldKey (earlier : List Field)
      (pending : List Pending) (outer : Context .expression) : Context .expression
  | keyed (earlier : List Field) (fieldKey : Expression)
      (pending : List Pending) (outer : Context .expression) : Context .expression

/-- The context of a function, whose parameters are still to be read. -/
inductive Header where
  | declaration (name : String) (before : Block) (outer : Context .block)
  | literal (pending : List Pending) (outer : Context .expression)

/-- The context of the body of a function. -/
def Header.body (header : Header) (parameters : List String) : Context .block :=
  match header with
  | declaration name before outer => .declaration name parameters before outer
  | literal pending outer => .literal parameters pending outer

/-- Where a reader stands. -/
inductive State where
  /-- At the start of a statement, or at the end of the block. -/
  | statement (before : Block) (outer : Context .block)
  /-- Behind a `return` that can still have a value and a semicolon. -/
  | returning (before : Block) (outer : Context .block)
  /-- At the end of the block. -/
  | closing (before : Block) (outer : Context .block)
  /-- Behind `local`. -/
  | declaring (before : Block) (outer : Context .block)
  /-- Behind the name of a declaration, which can still have a value. -/
  | declared (name : String) (before : Block) (outer : Context .block)
  /-- Behind a `function` that starts a statement, where it starts. -/
  | function (start : Position) (before : Block) (outer : Context .block)
  /-- Behind `for`. -/
  | counting (before : Block) (outer : Context .block)
  /-- Behind the counter of a loop. -/
  | counter (name : String) (before : Block) (outer : Context .block)
  /-- In front of the parameters of a function. -/
  | header (header : Header)
  /-- Behind the parenthesis that opens the parameters. -/
  | opened (header : Header)
  /-- Behind a parameter. -/
  | parameter (header : Header) (parameters : List String)
  /-- Behind the comma after a parameter. -/
  | further (header : Header) (parameters : List String)
  /-- In front of an operand. -/
  | operand (pending : List Pending) (outer : Context .expression)
  /-- Behind an operand. -/
  | operator (operand : Expression) (pending : List Pending) (outer : Context .expression)
  /-- Behind a dot. -/
  | member (target : Expression) (pending : List Pending) (outer : Context .expression)
  /-- Behind the parenthesis that opens the arguments of a call. -/
  | arguments (callee : Expression) (pending : List Pending) (outer : Context .expression)
  /-- In front of a field of a table, or of the brace that closes it. -/
  | field (earlier : List Field) (pending : List Pending) (outer : Context .expression)
  /-- Behind a name at the start of a field. -/
  | fieldName (earlier : List Field) (name : String)
      (pending : List Pending) (outer : Context .expression)
  /-- Behind the key of a field and its closing bracket. -/
  | fieldKey (earlier : List Field) (key : Expression)
      (pending : List Pending) (outer : Context .expression)
  /-- Behind the end of the text. -/
  | accepted (program : Block)

namespace Reader

def start : State :=
  .statement [] .chunk

/-- The pending operators that bind at least as tightly as a level take the operand, the innermost
one first. The others stay pending. -/
def combine (level : Nat) (operand : Expression) :
    List Pending → Expression × List Pending
  | .negate :: pending => combine level (.negate operand) pending
  | .binary lhs operation :: pending =>
      if level ≤ operation.level then combine level (.binary lhs operation operand) pending
      else (operand, .binary lhs operation :: pending)
  | [] => (operand, [])

/-- The expression that an operand completes at its end. -/
def complete (operand : Expression) (pending : List Pending) : Expression :=
  (combine 0 operand pending).1

/-- A token in front of an operand. -/
def feedOperand (pending : List Pending) (outer : Context .expression) (token : Token) :
    Option State :=
  match token.kind with
  | .number => some (.operator (.number token.text) pending outer)
  | .string => some (.operator (.string token.text) pending outer)
  | .name => some (.operator (.name token.text) pending outer)
  | .keyword .trueWord => some (.operator (.boolean true) pending outer)
  | .keyword .falseWord => some (.operator (.boolean false) pending outer)
  | .keyword .nilWord => some (.operator .nil pending outer)
  | .keyword .functionWord => some (.header (.literal pending outer))
  | .symbol (.operator .subtract) => some (.operand (.negate :: pending) outer)
  | .symbol .leftParenthesis => some (.operand [] (.parentheses pending outer))
  | .symbol .leftBrace => some (.field [] pending outer)
  | _ => none

/-- A token at the end of a block. -/
def feedClosing (before : Block) (outer : Context .block) (token : Token) : Option State :=
  let body := before.reverse
  match outer, token.kind with
  | .chunk, .finish => some (.accepted body)
  | .declaration name parameters before outer, .keyword .endWord =>
      some (.statement (.function name parameters body :: before) outer)
  | .literal parameters pending outer, .keyword .endWord =>
      some (.operator (.function parameters body) pending outer)
  | .branch earlier condition before outer, .keyword .elseifWord =>
      some (.operand [] (.condition (some (earlier.extend (.mk condition body))) before outer))
  | .branch earlier condition before outer, .keyword .elseWord =>
      let branches := earlier.extend (.mk condition body)
      some (.statement [] (.otherwise branches.1 branches.2 before outer))
  | .branch earlier condition before outer, .keyword .endWord =>
      let branches := earlier.extend (.mk condition body)
      some (.statement (.choose branches.1 branches.2 none :: before) outer)
  | .otherwise first others before outer, .keyword .endWord =>
      some (.statement (.choose first others (some body) :: before) outer)
  | .rounds counter start limit step before outer, .keyword .endWord =>
      some (.statement (.loop counter start limit step body :: before) outer)
  | _, _ => none

/-- A token at the start of a statement or at the end of the block. -/
def feedStatement (before : Block) (outer : Context .block) (token : Token) : Option State :=
  match token.kind with
  | .symbol .semicolon => some (.statement before outer)
  | .keyword .localWord => some (.declaring before outer)
  | .keyword .functionWord => some (.function token.position before outer)
  | .keyword .ifWord => some (.operand [] (.condition none before outer))
  | .keyword .forWord => some (.counting before outer)
  | .keyword .returnWord => some (.returning before outer)
  | _ =>
      (feedOperand [] (.evaluated token.position before outer) token).or
        (feedClosing before outer token)

/-- A token behind `return`, or behind the value that it has. -/
def feedReturned (value : Option Expression) (before : Block) (outer : Context .block)
    (token : Token) : Option State :=
  match token.kind with
  | .symbol .semicolon => some (.closing (.returns value :: before) outer)
  | _ => feedClosing (.returns value :: before) outer token

/-- A token behind a field of a table. -/
def feedFieldEnd (earlier : List Field) (pending : List Pending) (outer : Context .expression)
    (token : Token) : Option State :=
  match token.kind with
  | .symbol .comma | .symbol .semicolon => some (.field earlier pending outer)
  | .symbol .rightBrace => some (.operator (.table earlier.reverse) pending outer)
  | _ => none

/-- A token behind a complete expression. -/
def feedComplete (expression : Expression) (outer : Context .expression) (token : Token) :
    Option State :=
  match outer with
  | .evaluated start before outer =>
      match token.kind with
      | .symbol .assign => some (.operand [] (.assigned start expression before outer))
      | _ => feedStatement (.evaluate expression :: before) outer token
  | .assigned start target before outer =>
      feedStatement (.assign start target expression :: before) outer token
  | .declared name before outer =>
      feedStatement (.declare name (some expression) :: before) outer token
  | .returned before outer => feedReturned (some expression) before outer token
  | .condition earlier before outer =>
      match token.kind with
      | .keyword .thenWord => some (.statement [] (.branch earlier expression before outer))
      | _ => none
  | .loopStart counter before outer =>
      match token.kind with
      | .symbol .comma => some (.operand [] (.loopLimit counter expression before outer))
      | _ => none
  | .loopLimit counter start before outer =>
      match token.kind with
      | .symbol .comma => some (.operand [] (.loopStep counter start expression before outer))
      | .keyword .doWord =>
          some (.statement [] (.rounds counter start expression none before outer))
      | _ => none
  | .loopStep counter start limit before outer =>
      match token.kind with
      | .keyword .doWord =>
          some (.statement [] (.rounds counter start limit (some expression) before outer))
      | _ => none
  | .parentheses pending outer =>
      match token.kind with
      | .symbol .rightParenthesis => some (.operator expression pending outer)
      | _ => none
  | .key target pending outer =>
      match token.kind with
      | .symbol .rightBracket => some (.operator (.index target expression) pending outer)
      | _ => none
  | .argument callee earlier pending outer =>
      match token.kind with
      | .symbol .comma =>
          some (.operand [] (.argument callee (expression :: earlier) pending outer))
      | .symbol .rightParenthesis =>
          some (.operator (.call callee (expression :: earlier).reverse) pending outer)
      | _ => none
  | .positional earlier pending outer =>
      feedFieldEnd (.positional expression :: earlier) pending outer token
  | .named earlier name pending outer =>
      feedFieldEnd (.named name expression :: earlier) pending outer token
  | .fieldKey earlier pending outer =>
      match token.kind with
      | .symbol .rightBracket => some (.fieldKey earlier expression pending outer)
      | _ => none
  | .keyed earlier key pending outer =>
      feedFieldEnd (.keyed key expression :: earlier) pending outer token

/-- A token behind an operand. -/
def feedOperator (operand : Expression) (pending : List Pending) (outer : Context .expression)
    (token : Token) : Option State :=
  match token.kind with
  | .symbol .dot => some (.member operand pending outer)
  | .symbol .leftBracket => some (.operand [] (.key operand pending outer))
  | .symbol .leftParenthesis => some (.arguments operand pending outer)
  | .symbol (.operator operation) =>
      let combined := combine operation.level operand pending
      some (.operand (.binary combined.1 operation :: combined.2) outer)
  | _ => feedComplete (complete operand pending) outer token

/-- The state behind the next token, if a program can have it here. -/
def feed (state : State) (token : Token) : Option State :=
  match state with
  | .statement before outer => feedStatement before outer token
  | .returning before outer =>
      (feedOperand [] (.returned before outer) token).or (feedReturned none before outer token)
  | .closing before outer => feedClosing before outer token
  | .declaring before outer =>
      match token.kind with
      | .name => some (.declared token.text before outer)
      | _ => none
  | .declared name before outer =>
      match token.kind with
      | .symbol .assign => some (.operand [] (.declared name before outer))
      | _ => feedStatement (.declare name none :: before) outer token
  | .function start before outer =>
      match token.kind with
      | .name => some (.header (.declaration token.text before outer))
      | .symbol .leftParenthesis => some (.opened (.literal [] (.evaluated start before outer)))
      | _ => none
  | .counting before outer =>
      match token.kind with
      | .name => some (.counter token.text before outer)
      | _ => none
  | .counter name before outer =>
      match token.kind with
      | .symbol .assign => some (.operand [] (.loopStart name before outer))
      | _ => none
  | .header header =>
      match token.kind with
      | .symbol .leftParenthesis => some (.opened header)
      | _ => none
  | .opened header =>
      match token.kind with
      | .name => some (.parameter header [token.text])
      | .symbol .rightParenthesis => some (.statement [] (header.body []))
      | _ => none
  | .parameter header parameters =>
      match token.kind with
      | .symbol .comma => some (.further header parameters)
      | .symbol .rightParenthesis => some (.statement [] (header.body parameters.reverse))
      | _ => none
  | .further header parameters =>
      match token.kind with
      | .name => some (.parameter header (token.text :: parameters))
      | _ => none
  | .operand pending outer => feedOperand pending outer token
  | .operator operand pending outer => feedOperator operand pending outer token
  | .member target pending outer =>
      match token.kind with
      | .name => some (.operator (.dot target token.text) pending outer)
      | _ => none
  | .arguments callee pending outer =>
      match token.kind with
      | .symbol .rightParenthesis => some (.operator (.call callee []) pending outer)
      | _ => feedOperand [] (.argument callee [] pending outer) token
  | .field earlier pending outer =>
      match token.kind with
      | .name => some (.fieldName earlier token.text pending outer)
      | .symbol .leftBracket => some (.operand [] (.fieldKey earlier pending outer))
      | .symbol .rightBrace => some (.operator (.table earlier.reverse) pending outer)
      | _ => feedOperand [] (.positional earlier pending outer) token
  | .fieldName earlier name pending outer =>
      match token.kind with
      | .symbol .assign => some (.operand [] (.named earlier name pending outer))
      | _ => feedOperator (.name name) [] (.positional earlier pending outer) token
  | .fieldKey earlier key pending outer =>
      match token.kind with
      | .symbol .assign => some (.operand [] (.keyed earlier key pending outer))
      | _ => none
  | .accepted _ => none

/-- Feeds tokens until one is refused. The outcome is the last state or the refused token. -/
def feedAll (state : State) : List Token → Except Token State
  | [] => .ok state
  | token :: rest =>
      match feed state token with
      | some next => feedAll next rest
      | none => .error token

/-- The program that a state has accepted. -/
def program? : State → Option Block
  | .accepted program => some program
  | _ => none

end Reader

end LuaCore.Tree
