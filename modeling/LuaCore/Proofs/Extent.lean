import LuaCore.Proofs.Meaning
import LuaCore.Proofs.Parsing
import LuaCore.Proofs.Rerunning

/-!
The extent of programs: the constructors of tables in a text count no further than the text is long.
Every position but the first has a token in front of it that separates it from the one before, and
every token takes a character at least.
-/

namespace LuaCore

open Lexer Tree.Grammar

theorem lexes_length {position place : Position} {text more : List Char} {tokens : List Token}
    (lexes : Lexes position text tokens place more) : tokens.length ≤ text.length := by
  induction lexes with
  | refl => exact Nat.zero_le _
  | ignored _ _ _ ih =>
      rw [List.length_append]
      exact Nat.le_trans ih (Nat.le_add_left _ _)
  | @token _ _ lexeme rest _ _ _ _ first _ _ ih =>
      obtain ⟨length, found, taken, _⟩ := first_length first
      have nonempty : 0 < lexeme.length := by
        cases lexeme with
        | cons => exact Nat.succ_pos _
        | nil =>
            rcases List.take_eq_nil_iff.mp taken with none | none
            · exact absurd none (Nat.ne_of_gt (measured_pos found))
            · rw [none] at found
              cases found
      rw [List.length_append, List.length_cons]
      omega

/-- How far the constructors of tables in a phrase count. In front of the first field of a table
there is no separator. -/
def extent : (category : Category) → Meaning category → Nat
  | .block | .statements | .closing | .statement => Block.width
  | .branches => Branch.widthAll
  | .alternative => Block.width?
  | .arguments | .moreArguments => Expression.widthAll
  | .fields => fun fields => max (Field.positions fields - 1) (Field.widthAll fields)
  | .moreFields => fun fields => max (Field.positions fields) (Field.widthAll fields)
  | .field => Field.width
  | .level _ => Expression.width

/-- What the phrase is read to counts no further than it has tokens. -/
def Bounded {category : Category} (derivation : Derivation category) : Prop :=
  ∀ {value : Meaning category}, meaning category derivation.tree = .ok value →
    extent category value ≤ derivation.tokens.length

theorem append_width (statements others : Block) :
    Block.width (statements ++ others) = max (Block.width statements) (Block.width others) := by
  induction statements with
  | nil => exact (Nat.zero_max _).symm
  | cons statement rest ih => rw [List.cons_append, Block.width, Block.width, ih, Nat.max_assoc]

theorem negate_width (expression : Expression) : expression.negate.width = expression.width := by
  cases expression with
  | number => rfl
  | _ => exact Nat.zero_max _

theorem positions_cons (field : Field) (rest : List Field) :
    Field.positions (field :: rest) ≤ Field.positions rest + 1 := by
  cases field with
  | positional => exact Nat.le_refl _
  | named | keyed => exact Nat.le_succ _

section Productions

variable {condition value start limit step target key : Derivation .expression}
  {body : Derivation .block} {first : Derivation .statement} {others : Derivation .statements}
  {branches : Derivation .branches} {otherwise : Derivation .alternative}
  {closing : Derivation .closing} {name counter : Name} {parameters : Parameters}
  {sign : Mark .assign} {comma comma' : Mark .comma} {follows : Word .thenWord}
  {repeats : Word .doWord} {finish : Word .endWord}

/-! Blocks and statements. -/

theorem append_bounded {trees more : List Tree.Statement} {front behind : Nat} {block : Block}
    (before : ∀ {value}, Block.ofTree trees = .ok value → Block.width value ≤ front)
    (after : ∀ {value}, Block.ofTree more = .ok value → Block.width value ≤ behind)
    (read : Block.ofTree (trees ++ more) = .ok block) : Block.width block ≤ front + behind := by
  obtain ⟨statements, others, first, second, rfl⟩ := ofTree_append_ok read
  have bound := before first
  have bound' := after second
  rw [append_width]
  omega

theorem block_bounded (bounded : Bounded others) (bounded' : Bounded closing) :
    Bounded (.block others closing) := by
  intro block read
  change Block.width block ≤ (others.tokens ++ closing.tokens).length
  rw [List.length_append]
  exact append_bounded bounded bounded' read

theorem moreStatements_bounded (bounded : Bounded first) (bounded' : Bounded others) :
    Bounded (.moreStatements first others) := by
  intro block read
  change Block.width block ≤ (first.tokens ++ others.tokens).length
  rw [List.length_append]
  exact append_bounded bounded bounded' read

theorem returns_bounded {word : Word .returnWord} {stop : Option (Mark .semicolon)}
    (bounded : Bounded value) : Bounded (.returns word value stop) := by
  intro block read
  obtain ⟨statement, whole, rfl⟩ := ofTree_single read
  obtain ⟨_, omitted, whole⟩ := ok_bind whole
  obtain ⟨given, inner, same⟩ := ok_bind omitted
  cases same
  cases whole
  have bound : given.width ≤ value.tokens.length := bounded inner
  change max given.width 0 ≤ (word.token :: (value.tokens ++ optionalTokens stop)).length
  simp only [List.length_cons, List.length_append]
  omega

theorem declareAs_bounded {word : Word .localWord} (bounded : Bounded value) :
    Bounded (.declareAs word name sign value) := by
  intro block read
  obtain ⟨statement, whole, rfl⟩ := ofTree_single read
  obtain ⟨_, omitted, whole⟩ := ok_bind whole
  obtain ⟨given, inner, same⟩ := ok_bind omitted
  cases same
  cases whole
  have bound : given.width ≤ value.tokens.length := bounded inner
  change max given.width 0 ≤ (word.token :: name.token :: sign.token :: value.tokens).length
  simp only [List.length_cons]
  omega

theorem function_bounded {word : Word .functionWord} {left : Mark .leftParenthesis}
    {right : Mark .rightParenthesis} (bounded : Bounded body) :
    Bounded (.function word name left parameters right body finish) := by
  intro block read
  obtain ⟨statement, whole, rfl⟩ := ofTree_single read
  obtain ⟨inside, inner, whole⟩ := ok_bind whole
  cases whole
  have bound : Block.width inside ≤ body.tokens.length := bounded inner
  change max (Block.width inside) 0 ≤ (word.token :: name.token :: left.token ::
    (parameters.tokens ++ right.token :: (body.tokens ++ [finish.token]))).length
  simp only [List.length_cons, List.length_append]
  omega

theorem choose_bounded {word : Word .ifWord} (guard : Bounded condition) (inside : Bounded body)
    (more : Bounded branches) (last : Bounded otherwise) :
    Bounded (.choose word condition follows body branches otherwise finish) := by
  intro block read
  obtain ⟨statement, whole, rfl⟩ := ofTree_single read
  obtain ⟨_, readFirst, whole⟩ := ok_bind whole
  obtain ⟨asked, readCondition, readFirst⟩ := ok_bind readFirst
  obtain ⟨done, readBody, same⟩ := ok_bind readFirst
  obtain ⟨others, readBranches, whole⟩ := ok_bind whole
  obtain ⟨behind, readOtherwise, whole⟩ := ok_bind whole
  cases same
  cases whole
  have first : asked.width ≤ condition.tokens.length := guard readCondition
  have second : Block.width done ≤ body.tokens.length := inside readBody
  have third : Branch.widthAll others ≤ branches.tokens.length := more readBranches
  have fourth : Block.width? behind ≤ otherwise.tokens.length := last readOtherwise
  change max (max (max asked.width (Block.width done))
      (max (Branch.widthAll others) (Block.width? behind))) 0 ≤
    (word.token :: (condition.tokens ++ follows.token ::
      (body.tokens ++ (branches.tokens ++ (otherwise.tokens ++ [finish.token]))))).length
  simp only [List.length_cons, List.length_append]
  omega

theorem loop_bounded {word : Word .forWord} (initial : Bounded start) (final : Bounded limit)
    (inside : Bounded body) :
    Bounded (.loop word counter sign start comma limit repeats body finish) := by
  intro block read
  obtain ⟨statement, whole, rfl⟩ := ofTree_single read
  obtain ⟨low, readStart, whole⟩ := ok_bind whole
  obtain ⟨high, readLimit, whole⟩ := ok_bind whole
  obtain ⟨_, readStep, whole⟩ := ok_bind whole
  obtain ⟨round, readBody, whole⟩ := ok_bind whole
  cases readStep
  cases whole
  have first : low.width ≤ start.tokens.length := initial readStart
  have second : high.width ≤ limit.tokens.length := final readLimit
  have third : Block.width round ≤ body.tokens.length := inside readBody
  change max (max low.width (max high.width (max 0 (Block.width round)))) 0 ≤
    (word.token :: counter.token :: sign.token :: (start.tokens ++ comma.token ::
      (limit.tokens ++ repeats.token :: (body.tokens ++ [finish.token])))).length
  simp only [List.length_cons, List.length_append]
  omega

theorem loopBy_bounded {word : Word .forWord} (initial : Bounded start) (final : Bounded limit)
    (increment : Bounded step) (inside : Bounded body) :
    Bounded (.loopBy word counter sign start comma limit comma' step repeats body finish) := by
  intro block read
  obtain ⟨statement, whole, rfl⟩ := ofTree_single read
  obtain ⟨low, readStart, whole⟩ := ok_bind whole
  obtain ⟨high, readLimit, whole⟩ := ok_bind whole
  obtain ⟨_, readOmitted, whole⟩ := ok_bind whole
  obtain ⟨gap, readStep, same⟩ := ok_bind readOmitted
  obtain ⟨round, readBody, whole⟩ := ok_bind whole
  cases same
  cases whole
  have first : low.width ≤ start.tokens.length := initial readStart
  have second : high.width ≤ limit.tokens.length := final readLimit
  have third : gap.width ≤ step.tokens.length := increment readStep
  have fourth : Block.width round ≤ body.tokens.length := inside readBody
  change max (max low.width (max high.width (max gap.width (Block.width round)))) 0 ≤
    (word.token :: counter.token :: sign.token :: (start.tokens ++ comma.token ::
      (limit.tokens ++ comma'.token ::
        (step.tokens ++ repeats.token :: (body.tokens ++ [finish.token]))))).length
  simp only [List.length_cons, List.length_append]
  omega

theorem assign_bounded (place : Bounded target) (assigned : Bounded value) :
    Bounded (.assign target sign value) := by
  intro block read
  obtain ⟨statement, whole, rfl⟩ := ofTree_single read
  obtain ⟨object, readTarget, whole⟩ := ok_bind whole
  obtain ⟨given, readValue, whole⟩ := ok_bind whole
  obtain ⟨_, rfl⟩ := assign_target whole
  have first : object.width ≤ target.tokens.length := place readTarget
  have second : given.width ≤ value.tokens.length := assigned readValue
  change max (max object.width given.width) 0 ≤
    (target.tokens ++ sign.token :: value.tokens).length
  simp only [List.length_cons, List.length_append]
  omega

theorem evaluate_bounded (bounded : Bounded value) : Bounded (.evaluate value) := by
  intro block read
  obtain ⟨statement, whole, rfl⟩ := ofTree_single read
  obtain ⟨given, inner, whole⟩ := ok_bind whole
  cases whole
  have bound : given.width ≤ value.tokens.length := bounded inner
  change max given.width 0 ≤ value.tokens.length
  rwa [Nat.max_zero]

theorem moreBranches_bounded {word : Word .elseifWord} (guard : Bounded condition)
    (inside : Bounded body) (more : Bounded branches) :
    Bounded (.moreBranches word condition follows body branches) := by
  intro value read
  obtain ⟨_, readFirst, read⟩ := ok_bind read
  obtain ⟨asked, readCondition, readFirst⟩ := ok_bind readFirst
  obtain ⟨done, readBody, same⟩ := ok_bind readFirst
  obtain ⟨others, readBranches, read⟩ := ok_bind read
  cases same
  cases read
  have first : asked.width ≤ condition.tokens.length := guard readCondition
  have second : Block.width done ≤ body.tokens.length := inside readBody
  have third : Branch.widthAll others ≤ branches.tokens.length := more readBranches
  change max (max asked.width (Block.width done)) (Branch.widthAll others) ≤
    (word.token :: (condition.tokens ++ follows.token :: (body.tokens ++ branches.tokens))).length
  simp only [List.length_cons, List.length_append]
  omega

/-! Rows and fields. -/

theorem arguments_bounded {next : Derivation .expression} {more : Derivation .moreArguments}
    (bounded : Bounded next) (bounded' : Bounded more) : Bounded (.arguments next more) := by
  intro values read
  obtain ⟨given, inner, read⟩ := ok_bind read
  obtain ⟨others, behind, read⟩ := ok_bind read
  cases read
  have first : given.width ≤ next.tokens.length := bounded inner
  have second : Expression.widthAll others ≤ more.tokens.length := bounded' behind
  change max given.width (Expression.widthAll others) ≤ (next.tokens ++ more.tokens).length
  simp only [List.length_append]
  omega

/-- An argument that follows a comma is read as the first one is. -/
theorem moreArguments_bounded {next : Derivation .expression} {more : Derivation .moreArguments}
    (bounded : Bounded next) (bounded' : Bounded more) :
    Bounded (.moreArguments comma next more) :=
  fun read => Nat.le_trans (arguments_bounded bounded bounded' read) (Nat.le_succ _)

theorem fields_bounded {next : Derivation .field} {more : Derivation .moreFields}
    {last : Option Separator} (bounded : Bounded next) (bounded' : Bounded more) :
    Bounded (.fields next more last) := by
  intro fields read
  obtain ⟨given, inner, read⟩ := ok_bind read
  obtain ⟨others, behind, read⟩ := ok_bind read
  cases read
  have count := positions_cons given others
  have first : given.width ≤ next.tokens.length := bounded inner
  have second : max (Field.positions others) (Field.widthAll others) ≤ more.tokens.length :=
    bounded' behind
  change max (Field.positions (given :: others) - 1) (max given.width (Field.widthAll others)) ≤
    (next.tokens ++ (more.tokens ++ lastSeparator last)).length
  rw [List.length_append, List.length_append]
  omega

theorem moreFields_bounded {separator : Separator} {next : Derivation .field}
    {more : Derivation .moreFields} (bounded : Bounded next) (bounded' : Bounded more) :
    Bounded (.moreFields separator next more) := by
  intro fields read
  obtain ⟨given, inner, read⟩ := ok_bind read
  obtain ⟨others, behind, read⟩ := ok_bind read
  cases read
  have count := positions_cons given others
  have first : given.width ≤ next.tokens.length := bounded inner
  have second : max (Field.positions others) (Field.widthAll others) ≤ more.tokens.length :=
    bounded' behind
  change max (Field.positions (given :: others)) (max given.width (Field.widthAll others)) ≤
    (separator.token :: (next.tokens ++ more.tokens)).length
  simp only [List.length_cons, List.length_append]
  omega

theorem named_bounded (bounded : Bounded value) : Bounded (.named name sign value) := by
  intro field read
  obtain ⟨given, inner, read⟩ := ok_bind read
  cases read
  have bound : given.width ≤ value.tokens.length := bounded inner
  change given.width ≤ (name.token :: sign.token :: value.tokens).length
  simp only [List.length_cons]
  omega

theorem keyed_bounded {left : Mark .leftBracket} {right : Mark .rightBracket}
    (inside : Bounded key) (assigned : Bounded value) :
    Bounded (.keyed left key right sign value) := by
  intro field read
  obtain ⟨asked, readKey, read⟩ := ok_bind read
  obtain ⟨given, readValue, read⟩ := ok_bind read
  cases read
  have first : asked.width ≤ key.tokens.length := inside readKey
  have second : given.width ≤ value.tokens.length := assigned readValue
  change max asked.width given.width ≤
    (left.token :: (key.tokens ++ right.token :: sign.token :: value.tokens)).length
  simp only [List.length_cons, List.length_append]
  omega

/-! Expressions. -/

theorem binary_bounded {level : Nat} {lhs : Derivation (.level level)}
    {rhs : Derivation (.level (level + 1))} {operation : Operation}
    {fits : operation.level = level} {mark : Mark (.operator operation)}
    (bounded : Bounded lhs) (bounded' : Bounded rhs) :
    Bounded (.binary lhs operation fits mark rhs) := by
  intro expression read
  obtain ⟨left, readLeft, read⟩ := ok_bind read
  obtain ⟨right, readRight, read⟩ := ok_bind read
  cases read
  have first : left.width ≤ lhs.tokens.length := bounded readLeft
  have second : right.width ≤ rhs.tokens.length := bounded' readRight
  change max left.width right.width ≤ (lhs.tokens ++ mark.token :: rhs.tokens).length
  simp only [List.length_cons, List.length_append]
  omega

theorem negate_bounded {mark : Mark (.operator .subtract)} {inner : Derivation (.level 3)}
    (bounded : Bounded inner) : Bounded (.negate mark inner) := by
  intro expression read
  obtain ⟨operand, readOperand, read⟩ := ok_bind read
  cases read
  have bound : operand.width ≤ inner.tokens.length := bounded readOperand
  change operand.negate.width ≤ (mark.token :: inner.tokens).length
  rw [negate_width, List.length_cons]
  omega

theorem dot_bounded {object : Derivation (.level 4)} {mark : Mark .dot}
    (bounded : Bounded object) : Bounded (.dot object mark name) := by
  intro expression read
  obtain ⟨given, inner, read⟩ := ok_bind read
  cases read
  have bound : given.width ≤ object.tokens.length := bounded inner
  change given.width ≤ (object.tokens ++ [mark.token, name.token]).length
  simp only [List.length_cons, List.length_append]
  omega

theorem index_bounded {object : Derivation (.level 4)} {left : Mark .leftBracket}
    {right : Mark .rightBracket} (bounded : Bounded object) (inside : Bounded key) :
    Bounded (.index object left key right) := by
  intro expression read
  obtain ⟨given, readObject, read⟩ := ok_bind read
  obtain ⟨asked, readKey, read⟩ := ok_bind read
  cases read
  have first : given.width ≤ object.tokens.length := bounded readObject
  have second : asked.width ≤ key.tokens.length := inside readKey
  change max given.width asked.width ≤
    (object.tokens ++ left.token :: (key.tokens ++ [right.token])).length
  simp only [List.length_cons, List.length_append]
  omega

theorem call_bounded {callee : Derivation (.level 4)} {left : Mark .leftParenthesis}
    {values : Derivation .arguments} {right : Mark .rightParenthesis}
    (bounded : Bounded callee) (inside : Bounded values) :
    Bounded (.call callee left values right) := by
  intro expression read
  obtain ⟨function, readCallee, read⟩ := ok_bind read
  obtain ⟨given, readValues, read⟩ := ok_bind read
  cases read
  have first : function.width ≤ callee.tokens.length := bounded readCallee
  have second : Expression.widthAll given ≤ values.tokens.length := inside readValues
  change max function.width (Expression.widthAll given) ≤
    (callee.tokens ++ left.token :: (values.tokens ++ [right.token])).length
  simp only [List.length_cons, List.length_append]
  omega

theorem table_bounded {left : Mark .leftBrace} {entries : Derivation .fields}
    {right : Mark .rightBrace} (bounded : Bounded entries) :
    Bounded (.table left entries right) := by
  intro expression read
  obtain ⟨fields, inner, read⟩ := ok_bind read
  cases read
  have bound : max (Field.positions fields - 1) (Field.widthAll fields) ≤ entries.tokens.length :=
    bounded inner
  change max (Field.positions fields) (Field.widthAll fields) ≤
    (left.token :: (entries.tokens ++ [right.token])).length
  simp only [List.length_cons, List.length_append]
  omega

theorem literal_bounded {word : Word .functionWord} {left : Mark .leftParenthesis}
    {right : Mark .rightParenthesis} (bounded : Bounded body) :
    Bounded (.literal word left parameters right body finish) := by
  intro expression read
  obtain ⟨inside, inner, read⟩ := ok_bind read
  cases read
  have bound : Block.width inside ≤ body.tokens.length := bounded inner
  change Block.width inside ≤ (word.token :: left.token ::
    (parameters.tokens ++ right.token :: (body.tokens ++ [finish.token]))).length
  simp only [List.length_cons, List.length_append]
  omega

theorem parentheses_bounded {left : Mark .leftParenthesis} {right : Mark .rightParenthesis}
    (bounded : Bounded value) : Bounded (.parentheses left value right) := by
  intro expression read
  have bound : Expression.width expression ≤ value.tokens.length := bounded read
  change expression.width ≤ (left.token :: (value.tokens ++ [right.token])).length
  simp only [List.length_cons, List.length_append]
  omega

end Productions

theorem derivation_bounded {category : Category} (derivation : Derivation category) :
    Bounded derivation := by
  induction derivation with
  | block _ _ statements closing => exact block_bounded statements closing
  | moreStatements _ _ first others => exact moreStatements_bounded first others
  | returns _ _ _ value => exact returns_bounded value
  | declareAs _ _ _ _ value => exact declareAs_bounded value
  | function _ _ _ _ _ _ _ body => exact function_bounded body
  | choose _ _ _ _ _ _ _ condition body others otherwise =>
      exact choose_bounded condition body others otherwise
  | loop _ _ _ _ _ _ _ _ _ start limit body => exact loop_bounded start limit body
  | loopBy _ _ _ _ _ _ _ _ _ _ _ start limit step body =>
      exact loopBy_bounded start limit step body
  | assign _ _ _ target value => exact assign_bounded target value
  | evaluate _ expression => exact evaluate_bounded expression
  | moreBranches _ _ _ _ _ condition body others =>
      exact moreBranches_bounded condition body others
  | arguments _ _ first others => exact arguments_bounded first others
  | moreArguments _ _ _ next others => exact moreArguments_bounded next others
  | fields _ _ _ first others => exact fields_bounded first others
  | moreFields _ _ _ next others => exact moreFields_bounded next others
  | named _ _ _ value => exact named_bounded value
  | keyed _ _ _ _ _ key value => exact keyed_bounded key value
  | operand _ _ inner => exact inner
  | binary _ _ _ _ _ lhs rhs => exact binary_bounded lhs rhs
  | negate _ _ inner => exact negate_bounded inner
  | dot _ _ _ target => exact dot_bounded target
  | index _ _ _ _ target key => exact index_bounded target key
  | call _ _ _ _ callee values => exact call_bounded callee values
  | table _ _ _ entries => exact table_bounded entries
  | literal _ _ _ _ _ _ body => exact literal_bounded body
  | parentheses _ _ _ inner => exact parentheses_bounded inner
  | alternative _ _ body =>
      intro _ read
      obtain ⟨_, inner, read⟩ := ok_bind read
      cases read
      exact Nat.le_trans (body inner) (Nat.le_succ _)
  | positional _ value =>
      intro _ read
      obtain ⟨_, inner, read⟩ := ok_bind read
      cases read
      exact value inner
  | number | string =>
      intro _ read
      obtain ⟨_, _, read⟩ := ok_bind read
      cases read
      exact Nat.zero_le _
  | noStatements | empty | returnsNothing | declare | noReturn | noBranches | noAlternative
  | noArguments | noMoreArguments | noFields | noMoreFields | truth | falsehood | nil
  | reference =>
      rintro _ ⟨⟩
      exact Nat.zero_le _

/-- No constructor of a table in the program of a text counts further than the text is long. -/
theorem parse_width {source : String} {program : Block} (parsed : parse source = .ok program) :
    Block.width program ≤ source.length := by
  obtain ⟨tree, parsedTree, read⟩ := ok_bind parsed
  obtain ⟨tokens, ⟨_, lexes⟩, derivation, _, rfl, rfl⟩ :=
    (parseTree_ok_iff source tree).mp parsedTree
  cases outcome : Block.ofTree derivation.tree with
  | error fault =>
      rw [outcome] at read
      cases read
  | ok block =>
      rw [outcome] at read
      cases read
      exact Nat.le_trans (derivation_bounded derivation outcome) (lexes_length lexes)

end LuaCore
