import LuaCore.Proofs.Spelling

/-!
Well-formed programs, and why a text stands for no other: the names in a derivation are those of its
tokens, and a return closes the block it is in.
-/

namespace LuaCore

open Lexer Tree.Grammar

def Statement.isReturn : Statement → Bool
  | .returns _ => true
  | _ => false

mutual

def Expression.WellFormed : Expression → Prop
  | .number value => value.isNaN = false
  | .string _ | .boolean _ | .nil => True
  | .name name => IsName name
  | .table fields => Field.AllWellFormed fields
  | .binary lhs _ rhs => lhs.WellFormed ∧ rhs.WellFormed
  | .call callee arguments => callee.WellFormed ∧ Expression.AllWellFormed arguments
  | .dot target name => target.WellFormed ∧ IsName name
  | .index target key => target.WellFormed ∧ key.WellFormed
  | .function parameters body =>
      (∀ name ∈ parameters, IsName name) ∧ Block.WellFormed body
  | .strayStatement _ | .strayField _ => False

def Expression.AllWellFormed : List Expression → Prop
  | [] => True
  | expression :: rest => expression.WellFormed ∧ Expression.AllWellFormed rest

/-- An omitted expression is well-formed. -/
def Expression.WellFormed? : Option Expression → Prop
  | none => True
  | some expression => expression.WellFormed

def Field.WellFormed : Field → Prop
  | .positional value => value.WellFormed
  | .named name value => IsName name ∧ value.WellFormed
  | .keyed key value => key.WellFormed ∧ value.WellFormed

def Field.AllWellFormed : List Field → Prop
  | [] => True
  | field :: rest => field.WellFormed ∧ Field.AllWellFormed rest

def Branch.WellFormed : Branch → Prop
  | .mk condition body => condition.WellFormed ∧ Block.WellFormed body

def Branch.AllWellFormed : List Branch → Prop
  | [] => True
  | branch :: rest => branch.WellFormed ∧ Branch.AllWellFormed rest

def Statement.WellFormed : Statement → Prop
  | .assign target value => target.isTarget ∧ target.WellFormed ∧ value.WellFormed
  | .declare name value => IsName name ∧ value.WellFormed
  | .evaluate expression => expression.WellFormed
  | .returns value => value.WellFormed
  | .function name parameters body =>
      IsName name ∧ (∀ name ∈ parameters, IsName name) ∧ Block.WellFormed body
  | .choose first others otherwise =>
      first.WellFormed ∧ Branch.AllWellFormed others ∧ Block.WellFormed? otherwise
  | .loop counter start limit step body =>
      IsName counter ∧ start.WellFormed ∧ limit.WellFormed ∧ Expression.WellFormed? step ∧
        Block.WellFormed body
  | .strayExpression _ | .strayField _ => False

/-- Every statement is well-formed, and only the last one may be a return. -/
def Block.WellFormed : List Statement → Prop
  | [] => True
  | statement :: rest =>
      statement.WellFormed ∧ (statement.isReturn → rest = []) ∧ Block.WellFormed rest

/-- An omitted block is well-formed. -/
def Block.WellFormed? : Option (List Statement) → Prop
  | none => True
  | some body => Block.WellFormed body

end

/-! Names of tokens. -/

def Named (tokens : List Token) : Prop :=
  ∀ token ∈ tokens, token.kind = .name → IsName token.text

theorem named_cons {token : Token} {tokens : List Token} :
    Named (token :: tokens) ↔ (token.kind = .name → IsName token.text) ∧ Named tokens :=
  List.forall_mem_cons

theorem named_append {tokens others : List Token} :
    Named (tokens ++ others) ↔ Named tokens ∧ Named others :=
  List.forall_mem_append

theorem named_behind {token : Token} {tokens : List Token} (named : Named (token :: tokens)) :
    Named tokens :=
  (named_cons.mp named).2

theorem named_sides {tokens others : List Token} {token : Token}
    (named : Named (tokens ++ token :: others)) : Named tokens ∧ Named others := by
  obtain ⟨front, behind⟩ := named_append.mp named
  exact ⟨front, named_behind behind⟩

theorem word_letters {text : List Char} {length : Nat} (found : word? text = some length) :
    isWord (text.take length) := by
  cases text with
  | nil => cases found
  | cons first rest =>
      change (if isLetter first then some (run isNamePart rest + 1) else none) = _ at found
      by_cases letter : isLetter first
      · rw [if_pos letter] at found
        cases found
        have parts : rest.take (run isNamePart rest) = rest.takeWhile isNamePart :=
          (List.prefix_iff_eq_take.mp (List.takeWhile_prefix isNamePart)).symm
        rw [List.take_succ_cons, parts, isWord, letter, List.all_takeWhile]
        rfl
      · rw [if_neg letter] at found
        cases found

theorem lexes_named {position place : Position} {text more : List Char} {tokens : List Token}
    (lexes : Lexes position text tokens place more) : Named tokens := by
  induction lexes with
  | refl => exact fun _ member => absurd member List.not_mem_nil
  | ignored _ _ _ ih => exact ih
  | @token _ _ lexeme _ _ _ terminal kind first sounds _ ih =>
      refine named_cons.mpr ⟨?_, ih⟩
      rintro rfl
      cases terminal with
      | longComment | comment | blank | number | string | symbol => cases sounds
      | name =>
          obtain ⟨length, found, taken, _⟩ := first_length first
          have letters := word_letters (measured_length found)
          rw [taken] at letters
          refine ⟨?_, wordKind_name (Option.some.inj sounds)⟩
          rw [String.toList_ofList]
          exact letters

/-! Phrases. -/

def PhraseWellFormed : (category : Category) → Meaning category → Prop
  | .block | .closing => Block.WellFormed
  | .statements | .statement => fun statements =>
      Block.WellFormed statements ∧ ∀ statement ∈ statements, statement.isReturn = false
  | .branches => Branch.AllWellFormed
  | .alternative => Block.WellFormed?
  | .arguments | .moreArguments => Expression.AllWellFormed
  | .fields | .moreFields => Field.AllWellFormed
  | .field => Field.WellFormed
  | .level _ => Expression.WellFormed

theorem block_append {statements others : Block} (first : Block.WellFormed statements)
    (open' : ∀ statement ∈ statements, statement.isReturn = false)
    (second : Block.WellFormed others) : Block.WellFormed (statements ++ others) := by
  induction statements with
  | nil => exact second
  | cons statement statements ih =>
      obtain ⟨wellFormed, _, behind⟩ := first
      obtain ⟨noReturn, others⟩ := List.forall_mem_cons.mp open'
      refine ⟨wellFormed, ?_, ih behind others⟩
      intro returns
      rw [noReturn] at returns
      cases returns

/-- A single statement that is no return. -/
theorem single_wellFormed {statement : Statement} (wellFormed : statement.WellFormed)
    (noReturn : statement.isReturn = false) : PhraseWellFormed .statement [statement] :=
  ⟨⟨wellFormed, fun _ => rfl, trivial⟩, by simp [noReturn]⟩

theorem number_wellFormed {text : String} {x : Float} (read : Literal.number text = .ok x) :
    (Expression.number x).WellFormed := by
  unfold Literal.number at read
  split at read
  · next same =>
      cases read
      exact (Double.number_iff x).mpr (Double.read_number same).1
  · cases read

theorem negate_wellFormed {expression : Expression} (wellFormed : expression.WellFormed) :
    expression.negate.WellFormed := by
  cases expression with
  | number x =>
      have number := (Double.number_iff x).mp wellFormed
      exact (Double.number_iff (-x)).mpr (by rwa [Double.magnitude_neg number])
  | _ => exact ⟨(by decide +kernel : (-1 : Float).isNaN = false), wellFormed⟩

theorem parameters_named {parameters : Parameters} (named : Named parameters.tokens) :
    ∀ name ∈ parameters.names, IsName name := by
  have more {others : List (Mark .comma × Name)} (named : Named (Parameters.moreTokens others)) :
      ∀ name ∈ others.map (fun next => next.2.text), IsName name := by
    induction others with
    | nil => exact fun _ member => absurd member List.not_mem_nil
    | cons next others ih =>
        obtain ⟨isName, named⟩ := named_cons.mp (named_behind named)
        exact List.forall_mem_cons.mpr ⟨isName rfl, ih named⟩
  cases parameters with
  | none => exact fun _ member => absurd member List.not_mem_nil
  | some first others =>
      obtain ⟨isName, named⟩ := named_cons.mp named
      exact List.forall_mem_cons.mpr ⟨isName rfl, more named⟩

/-- Whatever a derivation with names in it is read to is well-formed. -/
def WellRead {category : Category} (derivation : Derivation category) : Prop :=
  Named derivation.tokens → ∀ {value : Meaning category},
    meaning category derivation.tree = .ok value → PhraseWellFormed category value

section Productions

variable {condition value start limit step target key : Derivation .expression}
  {body : Derivation .block} {first : Derivation .statement} {others : Derivation .statements}
  {branches : Derivation .branches} {otherwise : Derivation .alternative}
  {closing : Derivation .closing} {name counter : Name} {parameters : Parameters}
  {sign : Mark .assign} {comma comma' : Mark .comma} {follows : Word .thenWord}
  {repeats : Word .doWord} {finish : Word .endWord}

/-! Blocks and statements. -/

theorem block_wellRead (wellRead : WellRead others) (wellRead' : WellRead closing) :
    WellRead (.block others closing) := by
  intro named value read
  obtain ⟨named, named'⟩ := named_append.mp named
  obtain ⟨first, second, front, behind, rfl⟩ := ofTree_append_ok read
  obtain ⟨wellFormed, noReturn⟩ := wellRead named front
  exact block_append wellFormed noReturn (wellRead' named' behind)

theorem moreStatements_wellRead (wellRead : WellRead first) (wellRead' : WellRead others) :
    WellRead (.moreStatements first others) := by
  intro named value read
  obtain ⟨named, named'⟩ := named_append.mp named
  obtain ⟨statements, more, front, behind, rfl⟩ := ofTree_append_ok read
  obtain ⟨wellFormed, noReturn⟩ := wellRead named front
  obtain ⟨wellFormed', noReturn'⟩ := wellRead' named' behind
  exact ⟨block_append wellFormed noReturn wellFormed',
    List.forall_mem_append.mpr ⟨noReturn, noReturn'⟩⟩

theorem returns_wellRead {word : Word .returnWord} {stop : Option (Mark .semicolon)}
    (wellRead : WellRead value) : WellRead (.returns word value stop) := by
  intro named block read
  obtain ⟨named, _⟩ := named_append.mp (named_behind named)
  obtain ⟨statement, whole, rfl⟩ := ofTree_single read
  obtain ⟨_, omitted, whole⟩ := ok_bind whole
  obtain ⟨_, inner, same⟩ := ok_bind omitted
  cases same
  cases whole
  exact ⟨wellRead named inner, fun _ => rfl, trivial⟩

theorem declareAs_wellRead {word : Word .localWord} (wellRead : WellRead value) :
    WellRead (.declareAs word name sign value) := by
  intro named block read
  obtain ⟨isName, named⟩ := named_cons.mp (named_behind named)
  obtain ⟨statement, whole, rfl⟩ := ofTree_single read
  obtain ⟨_, omitted, whole⟩ := ok_bind whole
  obtain ⟨_, inner, same⟩ := ok_bind omitted
  cases same
  cases whole
  exact single_wellFormed ⟨isName rfl, wellRead (named_behind named) inner⟩ rfl

theorem function_wellRead {word : Word .functionWord} {left : Mark .leftParenthesis}
    {right : Mark .rightParenthesis} (wellRead : WellRead body) :
    WellRead (.function word name left parameters right body finish) := by
  intro named block read
  obtain ⟨isName, named⟩ := named_cons.mp (named_behind named)
  obtain ⟨namedParameters, named⟩ := named_sides (named_behind named)
  obtain ⟨named, _⟩ := named_sides named
  obtain ⟨statement, whole, rfl⟩ := ofTree_single read
  obtain ⟨_, inner, whole⟩ := ok_bind whole
  cases whole
  exact single_wellFormed
    ⟨isName rfl, parameters_named namedParameters, wellRead named inner⟩ rfl

theorem choose_wellRead {word : Word .ifWord} (guard : WellRead condition)
    (inside : WellRead body) (more : WellRead branches) (last : WellRead otherwise) :
    WellRead (.choose word condition follows body branches otherwise finish) := by
  intro named block read
  obtain ⟨namedCondition, named⟩ := named_sides (named_behind named)
  obtain ⟨namedBody, named⟩ := named_append.mp named
  obtain ⟨namedBranches, named⟩ := named_append.mp named
  obtain ⟨namedOtherwise, _⟩ := named_sides named
  obtain ⟨statement, whole, rfl⟩ := ofTree_single read
  obtain ⟨_, readFirst, whole⟩ := ok_bind whole
  obtain ⟨_, readCondition, readFirst⟩ := ok_bind readFirst
  obtain ⟨_, readBody, same⟩ := ok_bind readFirst
  obtain ⟨_, readBranches, whole⟩ := ok_bind whole
  obtain ⟨_, readOtherwise, whole⟩ := ok_bind whole
  cases same
  cases whole
  exact single_wellFormed
    ⟨⟨guard namedCondition readCondition, inside namedBody readBody⟩,
      more namedBranches readBranches, last namedOtherwise readOtherwise⟩ rfl

theorem loop_wellRead {word : Word .forWord} (initial : WellRead start) (final : WellRead limit)
    (inside : WellRead body) :
    WellRead (.loop word counter sign start comma limit repeats body finish) := by
  intro named block read
  obtain ⟨isName, named⟩ := named_cons.mp (named_behind named)
  obtain ⟨namedStart, named⟩ := named_sides (named_behind named)
  obtain ⟨namedLimit, named⟩ := named_sides named
  obtain ⟨namedBody, _⟩ := named_sides named
  obtain ⟨statement, whole, rfl⟩ := ofTree_single read
  obtain ⟨_, readStart, whole⟩ := ok_bind whole
  obtain ⟨_, readLimit, whole⟩ := ok_bind whole
  obtain ⟨_, readStep, whole⟩ := ok_bind whole
  obtain ⟨_, readBody, whole⟩ := ok_bind whole
  cases readStep
  cases whole
  exact single_wellFormed
    ⟨isName rfl, initial namedStart readStart, final namedLimit readLimit, trivial,
      inside namedBody readBody⟩ rfl

theorem loopBy_wellRead {word : Word .forWord} (initial : WellRead start)
    (final : WellRead limit) (increment : WellRead step) (inside : WellRead body) :
    WellRead (.loopBy word counter sign start comma limit comma' step repeats body finish) := by
  intro named block read
  obtain ⟨isName, named⟩ := named_cons.mp (named_behind named)
  obtain ⟨namedStart, named⟩ := named_sides (named_behind named)
  obtain ⟨namedLimit, named⟩ := named_sides named
  obtain ⟨namedStep, named⟩ := named_sides named
  obtain ⟨namedBody, _⟩ := named_sides named
  obtain ⟨statement, whole, rfl⟩ := ofTree_single read
  obtain ⟨_, readStart, whole⟩ := ok_bind whole
  obtain ⟨_, readLimit, whole⟩ := ok_bind whole
  obtain ⟨_, readOmitted, whole⟩ := ok_bind whole
  obtain ⟨_, readStep, same⟩ := ok_bind readOmitted
  obtain ⟨_, readBody, whole⟩ := ok_bind whole
  cases same
  cases whole
  exact single_wellFormed
    ⟨isName rfl, initial namedStart readStart, final namedLimit readLimit,
      increment namedStep readStep, inside namedBody readBody⟩ rfl

theorem assign_wellRead (place : WellRead target) (assigned : WellRead value) :
    WellRead (.assign target sign value) := by
  intro named block read
  obtain ⟨namedTarget, namedValue⟩ := named_sides named
  obtain ⟨statement, whole, rfl⟩ := ofTree_single read
  obtain ⟨_, readTarget, whole⟩ := ok_bind whole
  obtain ⟨_, readValue, whole⟩ := ok_bind whole
  obtain ⟨isTarget, rfl⟩ := assign_target whole
  exact single_wellFormed
    ⟨isTarget, place namedTarget readTarget, assigned namedValue readValue⟩ rfl

theorem evaluate_wellRead (wellRead : WellRead value) : WellRead (.evaluate value) := by
  intro named block read
  obtain ⟨statement, whole, rfl⟩ := ofTree_single read
  obtain ⟨_, inner, whole⟩ := ok_bind whole
  cases whole
  exact single_wellFormed (wellRead named inner) rfl

theorem moreBranches_wellRead {word : Word .elseifWord} (guard : WellRead condition)
    (inside : WellRead body) (more : WellRead branches) :
    WellRead (.moreBranches word condition follows body branches) := by
  intro named value read
  obtain ⟨namedCondition, named⟩ := named_sides (named_behind named)
  obtain ⟨namedBody, namedBranches⟩ := named_append.mp named
  obtain ⟨_, readFirst, read⟩ := ok_bind read
  obtain ⟨_, readCondition, readFirst⟩ := ok_bind readFirst
  obtain ⟨_, readBody, same⟩ := ok_bind readFirst
  obtain ⟨_, readBranches, read⟩ := ok_bind read
  cases same
  cases read
  exact ⟨⟨guard namedCondition readCondition, inside namedBody readBody⟩,
    more namedBranches readBranches⟩

/-! Rows and fields. -/

theorem arguments_wellRead {next : Derivation .expression} {more : Derivation .moreArguments}
    (wellRead : WellRead next) (wellRead' : WellRead more) :
    WellRead (.arguments next more) := by
  intro named values read
  obtain ⟨named, named'⟩ := named_append.mp named
  obtain ⟨_, inner, read⟩ := ok_bind read
  obtain ⟨_, behind, read⟩ := ok_bind read
  cases read
  exact ⟨wellRead named inner, wellRead' named' behind⟩

/-- An argument that follows a comma is read as the first one is. -/
theorem moreArguments_wellRead {next : Derivation .expression} {more : Derivation .moreArguments}
    (wellRead : WellRead next) (wellRead' : WellRead more) :
    WellRead (.moreArguments comma next more) :=
  fun named _ read => arguments_wellRead wellRead wellRead' (named_behind named) read

theorem fields_wellRead {next : Derivation .field} {more : Derivation .moreFields}
    {last : Option Separator} (wellRead : WellRead next) (wellRead' : WellRead more) :
    WellRead (.fields next more last) := by
  intro named fields read
  obtain ⟨named, named'⟩ := named_append.mp named
  obtain ⟨named', _⟩ := named_append.mp named'
  obtain ⟨_, inner, read⟩ := ok_bind read
  obtain ⟨_, behind, read⟩ := ok_bind read
  cases read
  exact ⟨wellRead named inner, wellRead' named' behind⟩

theorem moreFields_wellRead {separator : Separator} {next : Derivation .field}
    {more : Derivation .moreFields} (wellRead : WellRead next) (wellRead' : WellRead more) :
    WellRead (.moreFields separator next more) := by
  intro named fields read
  obtain ⟨named, named'⟩ := named_append.mp (named_behind named)
  obtain ⟨_, inner, read⟩ := ok_bind read
  obtain ⟨_, behind, read⟩ := ok_bind read
  cases read
  exact ⟨wellRead named inner, wellRead' named' behind⟩

theorem named_wellRead (wellRead : WellRead value) : WellRead (.named name sign value) := by
  intro named field read
  obtain ⟨isName, named⟩ := named_cons.mp named
  obtain ⟨_, inner, read⟩ := ok_bind read
  cases read
  exact ⟨isName rfl, wellRead (named_behind named) inner⟩

theorem keyed_wellRead {left : Mark .leftBracket} {right : Mark .rightBracket}
    (inside : WellRead key) (assigned : WellRead value) :
    WellRead (.keyed left key right sign value) := by
  intro named field read
  obtain ⟨namedKey, named⟩ := named_sides (named_behind named)
  obtain ⟨_, readKey, read⟩ := ok_bind read
  obtain ⟨_, readValue, read⟩ := ok_bind read
  cases read
  exact ⟨inside namedKey readKey, assigned (named_behind named) readValue⟩

/-! Expressions. -/

theorem binary_wellRead {level : Nat} {lhs : Derivation (.level level)}
    {rhs : Derivation (.level (level + 1))} {operation : Operation}
    {fits : operation.level = level} {mark : Mark (.operator operation)}
    (wellRead : WellRead lhs) (wellRead' : WellRead rhs) :
    WellRead (.binary lhs operation fits mark rhs) := by
  intro named expression read
  obtain ⟨namedLeft, namedRight⟩ := named_sides named
  obtain ⟨_, readLeft, read⟩ := ok_bind read
  obtain ⟨_, readRight, read⟩ := ok_bind read
  cases read
  exact ⟨wellRead namedLeft readLeft, wellRead' namedRight readRight⟩

theorem negate_wellRead {mark : Mark (.operator .subtract)} {inner : Derivation (.level 3)}
    (wellRead : WellRead inner) : WellRead (.negate mark inner) := by
  intro named expression read
  obtain ⟨_, inner, read⟩ := ok_bind read
  cases read
  exact negate_wellFormed (wellRead (named_behind named) inner)

theorem dot_wellRead {object : Derivation (.level 4)} {mark : Mark .dot}
    (wellRead : WellRead object) : WellRead (.dot object mark name) := by
  intro named expression read
  obtain ⟨namedObject, named⟩ := named_sides named
  obtain ⟨isName, _⟩ := named_cons.mp named
  obtain ⟨_, inner, read⟩ := ok_bind read
  cases read
  exact ⟨wellRead namedObject inner, isName rfl⟩

theorem index_wellRead {object : Derivation (.level 4)} {left : Mark .leftBracket}
    {right : Mark .rightBracket} (wellRead : WellRead object) (inside : WellRead key) :
    WellRead (.index object left key right) := by
  intro named expression read
  obtain ⟨namedObject, named⟩ := named_sides named
  obtain ⟨namedKey, _⟩ := named_sides named
  obtain ⟨_, readObject, read⟩ := ok_bind read
  obtain ⟨_, readKey, read⟩ := ok_bind read
  cases read
  exact ⟨wellRead namedObject readObject, inside namedKey readKey⟩

theorem call_wellRead {callee : Derivation (.level 4)} {left : Mark .leftParenthesis}
    {values : Derivation .arguments} {right : Mark .rightParenthesis}
    (wellRead : WellRead callee) (inside : WellRead values) :
    WellRead (.call callee left values right) := by
  intro named expression read
  obtain ⟨namedCallee, named⟩ := named_sides named
  obtain ⟨namedValues, _⟩ := named_sides named
  obtain ⟨_, readCallee, read⟩ := ok_bind read
  obtain ⟨_, readValues, read⟩ := ok_bind read
  cases read
  exact ⟨wellRead namedCallee readCallee, inside namedValues readValues⟩

theorem table_wellRead {left : Mark .leftBrace} {entries : Derivation .fields}
    {right : Mark .rightBrace} (wellRead : WellRead entries) :
    WellRead (.table left entries right) := by
  intro named expression read
  obtain ⟨named, _⟩ := named_sides (named_behind named)
  obtain ⟨_, inner, read⟩ := ok_bind read
  cases read
  have fields : Field.AllWellFormed _ := wellRead named inner
  exact fields

theorem literal_wellRead {word : Word .functionWord} {left : Mark .leftParenthesis}
    {right : Mark .rightParenthesis} (wellRead : WellRead body) :
    WellRead (.literal word left parameters right body finish) := by
  intro named expression read
  obtain ⟨namedParameters, named⟩ := named_sides (named_behind (named_behind named))
  obtain ⟨named, _⟩ := named_sides named
  obtain ⟨_, inner, read⟩ := ok_bind read
  cases read
  exact ⟨parameters_named namedParameters, wellRead named inner⟩

theorem parentheses_wellRead {left : Mark .leftParenthesis} {right : Mark .rightParenthesis}
    (wellRead : WellRead value) : WellRead (.parentheses left value right) := by
  intro named expression read
  obtain ⟨named, _⟩ := named_sides (named_behind named)
  exact wellRead named read

end Productions

theorem derivation_wellRead {category : Category} (derivation : Derivation category) :
    WellRead derivation := by
  induction derivation with
  | block _ _ statements closing => exact block_wellRead statements closing
  | moreStatements _ _ first others => exact moreStatements_wellRead first others
  | returns _ _ _ value => exact returns_wellRead value
  | declareAs _ _ _ _ value => exact declareAs_wellRead value
  | function _ _ _ _ _ _ _ body => exact function_wellRead body
  | choose _ _ _ _ _ _ _ condition body others otherwise =>
      exact choose_wellRead condition body others otherwise
  | loop _ _ _ _ _ _ _ _ _ start limit body => exact loop_wellRead start limit body
  | loopBy _ _ _ _ _ _ _ _ _ _ _ start limit step body =>
      exact loopBy_wellRead start limit step body
  | assign _ _ _ target value => exact assign_wellRead target value
  | evaluate _ expression => exact evaluate_wellRead expression
  | moreBranches _ _ _ _ _ condition body others =>
      exact moreBranches_wellRead condition body others
  | arguments _ _ first others => exact arguments_wellRead first others
  | moreArguments _ _ _ next others => exact moreArguments_wellRead next others
  | fields _ _ _ first others => exact fields_wellRead first others
  | moreFields _ _ _ next others => exact moreFields_wellRead next others
  | named _ _ _ value => exact named_wellRead value
  | keyed _ _ _ _ _ key value => exact keyed_wellRead key value
  | operand _ _ inner => exact fun named _ read => inner named read
  | binary _ _ _ _ _ lhs rhs => exact binary_wellRead lhs rhs
  | negate _ _ inner => exact negate_wellRead inner
  | dot _ _ _ target => exact dot_wellRead target
  | index _ _ _ _ target key => exact index_wellRead target key
  | call _ _ _ _ callee values => exact call_wellRead callee values
  | table _ _ _ entries => exact table_wellRead entries
  | literal _ _ _ _ _ _ body => exact literal_wellRead body
  | parentheses _ _ _ inner => exact parentheses_wellRead inner
  | noStatements | empty =>
      rintro _ _ ⟨⟩
      exact ⟨trivial, fun _ member => absurd member List.not_mem_nil⟩
  | returnsNothing =>
      rintro _ _ ⟨⟩
      exact ⟨trivial, fun _ => rfl, trivial⟩
  | declare =>
      rintro named _ ⟨⟩
      obtain ⟨isName, _⟩ := named_cons.mp (named_behind named)
      exact single_wellFormed ⟨isName rfl, trivial⟩ rfl
  | noReturn | noBranches | noAlternative | noArguments | noMoreArguments | noFields
  | noMoreFields | truth | falsehood | nil =>
      rintro _ _ ⟨⟩
      exact trivial
  | alternative _ _ body =>
      intro named _ read
      obtain ⟨_, inner, read⟩ := ok_bind read
      cases read
      exact body (named_behind named) inner
  | positional _ value =>
      intro named _ read
      obtain ⟨_, inner, read⟩ := ok_bind read
      cases read
      have wellFormed : Expression.WellFormed _ := value named inner
      exact wellFormed
  | number =>
      intro _ _ read
      obtain ⟨_, inner, read⟩ := ok_bind read
      cases read
      exact number_wellFormed inner
  | string =>
      intro _ _ read
      obtain ⟨_, _, read⟩ := ok_bind read
      cases read
      exact trivial
  | reference =>
      rintro named _ ⟨⟩
      exact (named_cons.mp named).1 rfl

/-- The program of a text is well-formed. -/
theorem parse_wellFormed {source : String} {program : Block}
    (parsed : parse source = .ok program) : Block.WellFormed program := by
  obtain ⟨tree, parsedTree, read⟩ := ok_bind parsed
  obtain ⟨tokens, ⟨_, lexes⟩, derivation, _, rfl, rfl⟩ :=
    (parseTree_ok_iff source tree).mp parsedTree
  cases outcome : Block.ofTree derivation.tree with
  | error fault =>
      rw [outcome] at read
      cases read
  | ok block =>
      rw [outcome] at read
      cases read
      exact derivation_wellRead derivation (lexes_named lexes) outcome

end LuaCore
