import LuaCore.Proofs.Starts
import LuaCore.Tree.Reader

/-!
The reader accepts what the grammar derives. Each phrase is read in the state in front of it, and
leads to a state that answers the tokens behind the phrase as if its tree had just been added.
-/

namespace LuaCore.Tree.Grammar

open Reader

theorem feedAll_append (state middle : State) (first second : List Token)
    (reads : feedAll state first = .ok middle) :
    feedAll state (first ++ second) = feedAll middle second := by
  induction first generalizing state with
  | nil =>
      cases reads
      rfl
  | cons token rest ih =>
      simp only [List.cons_append, feedAll] at reads ⊢
      cases next : feed state token with
      | none => simp [next] at reads
      | some after =>
          simp only [next] at reads ⊢
          exact ih after reads

/-- The tokens lead from one state to another. -/
def Reads (state : State) (tokens : List Token) (next : State) : Prop :=
  feedAll state tokens = .ok next

theorem reads_nil (state : State) : Reads state [] state :=
  rfl

theorem reads_cons {state middle next : State} {token : Token} {rest : List Token}
    (step : feed state token = some middle) (reads : Reads middle rest next) :
    Reads state (token :: rest) next := by
  unfold Reads
  simp only [feedAll, step]
  exact reads

theorem reads_one {state next : State} {token : Token} (step : feed state token = some next) :
    Reads state [token] next :=
  reads_cons step (reads_nil next)

theorem reads_uncons {state next : State} {token : Token} {rest : List Token}
    (reads : Reads state (token :: rest) next) :
    ∃ middle, feed state token = some middle ∧ Reads middle rest next := by
  unfold Reads at reads
  simp only [feedAll] at reads
  cases step : feed state token with
  | none => simp [step] at reads
  | some middle =>
      simp only [step] at reads
      exact ⟨middle, rfl, reads⟩

theorem reads_append {state middle next : State} {first second : List Token}
    (before : Reads state first middle) (after : Reads middle second next) :
    Reads state (first ++ second) next := by
  unfold Reads
  rw [feedAll_append state middle first second before]
  exact after

theorem reads_assoc {state next : State} {first second third : List Token}
    (reads : Reads state (first ++ (second ++ third)) next) :
    Reads state (first ++ second ++ third) next := by
  rw [List.append_assoc]
  exact reads

/-- Two states that answer the first token alike lead to the same states. -/
theorem reads_congr {state other next : State} {token : Token} {rest : List Token}
    (same : feed state token = feed other token) (reads : Reads other (token :: rest) next) :
    Reads state (token :: rest) next := by
  unfold Reads at reads ⊢
  simp only [feedAll, same] at reads ⊢
  exact reads

/-- An operand of a level does not take any of the pending operators with it. -/
def Fits (level : Nat) : List Pending → Prop
  | [] => True
  | .negate :: _ => 3 ≤ level
  | .binary _ operation :: _ => operation.level < level

theorem fits_mono {low high : Nat} (le : low ≤ high) {pending : List Pending}
    (fits : Fits low pending) : Fits high pending := by
  unfold Fits at fits ⊢
  split at fits
  · trivial
  · exact Nat.le_trans fits le
  · exact Nat.lt_of_lt_of_le fits le

-- No operator binds as tightly as a negation does, so that nothing pending takes an operand of a
-- chain.
theorem fits_chain {level : Nat} (high : 3 ≤ level) (pending : List Pending) :
    Fits level pending := by
  unfold Fits
  split
  · trivial
  · exact high
  · exact Nat.lt_of_le_of_lt (level_le_two _) high

theorem combine_fits {level : Nat} (low : level ≤ 2) (tree : Expression)
    {pending : List Pending} (fits : Fits level pending) :
    combine level tree pending = (tree, pending) := by
  unfold Fits at fits
  split at fits
  · rfl
  · omega
  · have loose : ¬ level ≤ (‹Operation›).level := by omega
    simp [combine, loose]

-- The reader cannot see the end of a phrase before the token behind it. That is why a phrase is not
-- said to lead to a certain state, but to one that answers every token which can stand behind the
-- phrase.
/-- How a phrase is read. The tokens behind it are answered as if its tree had just been added to
what surrounds it. -/
def Read : {category : Category} → Derivation category → Prop
  | .level level, derivation => ∀ pending outer, Fits level pending →
      ∃ operand pending',
        Reads (.operand pending outer) derivation.tokens (.operator operand pending' outer) ∧
        (∀ bound ≤ level, combine bound operand pending' = combine bound derivation.tree pending) ∧
        (4 ≤ level → operand = derivation.tree ∧ pending' = pending)
  | .block, derivation => ∀ outer, ∃ state,
      Reads (.statement [] outer) derivation.tokens state ∧
      ∀ token, Closes token.kind →
        feed state token = feedClosing derivation.tree.reverse outer token
  | .statements, derivation => ∀ before outer, ∃ state,
      Reads (.statement before outer) derivation.tokens state ∧
      ∀ token, Detached token.kind →
        feed state token = feedStatement (derivation.tree.reverse ++ before) outer token
  | .closing, derivation => ∀ before outer state,
      (∀ token, Detached token.kind → feed state token = feedStatement before outer token) →
      ∃ next, Reads state derivation.tokens next ∧
        ∀ token, Closes token.kind →
          feed next token = feedClosing (derivation.tree.reverse ++ before) outer token
  | .statement, derivation => ∀ before outer, ∃ state,
      Reads (.statement before outer) derivation.tokens state ∧
      ∀ token, token.kind ≠ .symbol .assign →
        (derivation.EndsInExpression → ¬ Continues 0 token.kind) →
        feed state token = feedStatement (derivation.tree.reverse ++ before) outer token
  | .branches, derivation => ∀ earlier condition body before outer state,
      (∀ token, Closes token.kind → feed state token =
        feedClosing body (.branch earlier condition before outer) token) →
      ∃ earlier' condition' body' next,
        Reads state derivation.tokens next ∧
        (∀ token, Closes token.kind → feed next token =
          feedClosing body' (.branch earlier' condition' before outer) token) ∧
        (earlier'.extend (.mk condition' body'.reverse)).1 =
          (earlier.extend (.mk condition body.reverse)).1 ∧
        (earlier'.extend (.mk condition' body'.reverse)).2 =
          (earlier.extend (.mk condition body.reverse)).2 ++ derivation.tree
  | .alternative, derivation => ∀ earlier condition body before outer state
      (finish : Word .endWord),
      (∀ token, Closes token.kind → feed state token =
        feedClosing body (.branch earlier condition before outer) token) →
      Reads state (derivation.tokens ++ [finish.token])
        (.statement (.choose (earlier.extend (.mk condition body.reverse)).1
          (earlier.extend (.mk condition body.reverse)).2 derivation.tree :: before) outer)
  | .arguments, derivation => ∀ callee pending outer (right : Mark .rightParenthesis),
      Reads (.arguments callee pending outer) (derivation.tokens ++ [right.token])
        (.operator (.call callee derivation.tree) pending outer)
  | .moreArguments, derivation => ∀ callee earlier value pending outer state
      (right : Mark .rightParenthesis),
      (∀ token, ¬ Continues 0 token.kind → feed state token =
        feedComplete value (.argument callee earlier pending outer) token) →
      Reads state (derivation.tokens ++ [right.token])
        (.operator (.call callee (earlier.reverse ++ value :: derivation.tree)) pending outer)
  | .fields, derivation => ∀ pending outer (right : Mark .rightBrace),
      Reads (.field [] pending outer) (derivation.tokens ++ [right.token])
        (.operator (.table derivation.tree) pending outer)
  | .moreFields, derivation => ∀ earlier pending outer state,
      (∀ token, EndsField token.kind →
        feed state token = feedFieldEnd earlier pending outer token) →
      ∃ next, Reads state derivation.tokens next ∧
        ∀ token, EndsField token.kind →
          feed next token = feedFieldEnd (derivation.tree.reverse ++ earlier) pending outer token
  | .field, derivation => ∀ earlier pending outer, ∃ next,
      Reads (.field earlier pending outer) derivation.tokens next ∧
      ∀ token, EndsField token.kind →
        feed next token = feedFieldEnd (derivation.tree :: earlier) pending outer token

/-! Tokens behind an expression or a block. -/

theorem feed_operator_complete (operand : Expression) (pending : List Pending)
    (outer : Context .expression) (token : Token) (stops : ¬ Continues 0 token.kind) :
    feed (.operator operand pending outer) token =
      feedComplete (complete operand pending) outer token := by
  obtain ⟨kind, text, position⟩ := token
  cases kind with
  | symbol mark =>
      cases mark with
      | dot | leftBracket | leftParenthesis | operator => exact absurd (Nat.zero_le _) stops
      | _ => rfl
  | _ => rfl

theorem feedStatement_closes (before : Block) (outer : Context .block) (token : Token)
    (closes : Closes token.kind) :
    feedStatement before outer token = feedClosing before outer token := by
  obtain ⟨kind, text, position⟩ := token
  simp only [Closes, List.mem_cons, List.not_mem_nil, or_false] at closes
  rcases closes with rfl | rfl | rfl | rfl <;> rfl

/-- An expression on its own is answered by what surrounds it. -/
theorem read_expression {derivation : Derivation .expression} (read : Read derivation)
    (outer : Context .expression) :
    ∃ state, Reads (.operand [] outer) derivation.tokens state ∧
      ∀ token, ¬ Continues 0 token.kind →
        feed state token = feedComplete derivation.tree outer token := by
  obtain ⟨operand, pending, reads, combined, _⟩ := read [] outer trivial
  refine ⟨_, reads, fun token stops => ?_⟩
  have whole : complete operand pending = derivation.tree := by
    simp [complete, combined 0 (Nat.le_refl 0), combine]
  rw [feed_operator_complete operand pending outer token stops, whole]

/-- An expression with what stands behind it. -/
theorem read_expression_then {derivation : Derivation .expression} (read : Read derivation)
    {outer : Context .expression} {token : Token} {rest : List Token} {middle next : State}
    (stops : ¬ Continues 0 token.kind)
    (step : feedComplete derivation.tree outer token = some middle)
    (reads : Reads middle rest next) :
    Reads (.operand [] outer) (derivation.tokens ++ token :: rest) next := by
  obtain ⟨state, before, answers⟩ := read_expression read outer
  exact reads_append before (reads_cons ((answers token stops).trans step) reads)

/-! The states in front of an expression read it as the state in front of an operand does. -/

/-- The states in front of an optional expression, and what surrounds the expression there. -/
inductive Entry (start : Position) : State → Context .expression → Prop where
  | statement (before : Block) (outer : Context .block) :
      Entry start (.statement before outer) (.evaluated start before outer)
  | returning (before : Block) (outer : Context .block) :
      Entry start (.returning before outer) (.returned before outer)
  | arguments (callee : Expression) (pending : List Pending) (outer : Context .expression) :
      Entry start (.arguments callee pending outer) (.argument callee [] pending outer)
  | field (earlier : List Field) (pending : List Pending) (outer : Context .expression) :
      Entry start (.field earlier pending outer) (.positional earlier pending outer)

theorem entry_operand {state : State} {outer : Context .expression} {token : Token}
    (entry : Entry token.position state outer) (opens : OpensOperand token.kind) :
    feed state token = feed (.operand [] outer) token := by
  obtain ⟨kind, text, position⟩ := token
  simp only [OpensOperand, List.mem_cons, List.not_mem_nil, or_false] at opens
  cases entry with
  | statement | returning | arguments | field =>
      rcases opens with rfl | rfl | rfl | rfl | rfl | rfl | rfl | rfl <;> rfl

/-- Behind a name that starts a field, only an assignment sign makes it a key. -/
theorem feed_fieldName (earlier : List Field) (name : String) (pending : List Pending)
    (outer : Context .expression) (token : Token) (noSign : token.kind ≠ .symbol .assign) :
    feed (.fieldName earlier name pending outer) token =
      feed (.operator (.name name) [] (.positional earlier pending outer)) token := by
  obtain ⟨kind, text, position⟩ := token
  cases kind with
  | symbol mark =>
      cases mark with
      | assign => exact absurd rfl noSign
      | _ => rfl
  | _ => rfl

/-- A field that is only a name is left out: the reader has to wait for the token behind it. -/
theorem enters {state next : State} {outer : Context .expression} {tokens : List Token}
    (entry : Entry (startOf tokens) state outer) (starts : StartsExpression tokens)
    (more : ∀ earlier pending outer', state = .field earlier pending outer' →
      ∀ name, tokens = [name] → name.kind ≠ .name)
    (reads : Reads (.operand [] outer) tokens next) : Reads state tokens next := by
  cases starts with
  | operand first rest opens => exact reads_congr (entry_operand entry opens) reads
  | function first second rest isFunction isOpening =>
      obtain ⟨word, rfl⟩ := lexeme_exists isFunction
      obtain ⟨mark, rfl⟩ := lexeme_exists isOpening
      cases entry with
      | statement | returning | arguments | field => exact reads
  | name first rest isName behind =>
      obtain ⟨name, rfl⟩ := lexeme_exists isName
      cases entry with
      | statement | returning | arguments => exact reads
      | field earlier pending outer =>
          cases rest with
          | nil => exact absurd rfl (more earlier pending outer rfl name.token rfl)
          | cons second rest =>
              have same := feed_fieldName earlier name.text pending outer second
                (behind second rfl)
              have after :
                  Reads (.operator (.name name.text) [] (.positional earlier pending outer))
                    (second :: rest) next := reads
              exact reads_cons rfl (reads_congr same after)

/-! Expressions. -/

theorem read_operand {level : Nat} (bound : level < 5) {inner : Derivation (.level (level + 1))}
    (read : Read inner) : Read (.operand bound inner) := by
  intro pending outer fits
  obtain ⟨operand, pending', reads, combined, whole⟩ :=
    read pending outer (fits_mono (Nat.le_succ level) fits)
  exact ⟨operand, pending', reads, fun bound le => combined bound (by omega),
    fun high => whole (by omega)⟩

theorem read_binary {level : Nat} {lhs : Derivation (.level level)} {operation : Operation}
    (same : operation.level = level) (mark : Mark (.operator operation))
    {rhs : Derivation (.level (level + 1))} (left : Read lhs) (right : Read rhs) :
    Read (.binary lhs operation same mark rhs) := by
  subst same
  intro pending outer fits
  obtain ⟨operand, waiting, reads, combined, _⟩ := left pending outer fits
  -- Everything that the left operand left pending binds at least as tightly, so the sign takes all
  -- of it.
  have taken : combine operation.level operand waiting = (lhs.tree, pending) := by
    rw [combined operation.level (Nat.le_refl _), combine_fits (level_le_two operation) _ fits]
  have step : feed (.operator operand waiting outer) mark.token =
      some (.operand (.binary lhs.tree operation :: pending) outer) := by
    change some (State.operand (.binary (combine operation.level operand waiting).1 operation ::
      (combine operation.level operand waiting).2) outer) = _
    rw [taken]
  obtain ⟨last, waiting', reads', combined', _⟩ :=
    right (.binary lhs.tree operation :: pending) outer (Nat.lt_succ_self _)
  refine ⟨last, waiting', reads_append reads (reads_cons step reads'), ?_, ?_⟩
  · intro bound le
    rw [combined' bound (by omega)]
    exact if_pos le
  · intro high
    have := level_le_two operation
    omega

theorem read_negate (mark : Mark (.operator .subtract)) {inner : Derivation (.level 3)}
    (read : Read inner) : Read (.negate mark inner) := by
  intro pending outer fits
  obtain ⟨operand, waiting, reads, combined, _⟩ :=
    read (.negate :: pending) outer (Nat.le_refl 3)
  refine ⟨operand, waiting, reads_cons rfl reads, ?_, fun high => by omega⟩
  intro bound le
  rw [combined bound le]
  rfl

/-- Above the operators, a phrase leaves the pending operators alone. -/
theorem read_chain {derivation : Derivation (.level 4)} (read : Read derivation)
    (pending : List Pending) (outer : Context .expression) :
    Reads (.operand pending outer) derivation.tokens
      (.operator derivation.tree pending outer) := by
  obtain ⟨operand, waiting, reads, _, whole⟩ :=
    read pending outer (fits_chain (by omega) pending)
  obtain ⟨rfl, rfl⟩ := whole (Nat.le_refl 4)
  exact reads

theorem read_at_once {level : Nat} {derivation : Derivation (.level level)}
    (reads : ∀ pending outer, Reads (.operand pending outer) derivation.tokens
      (.operator derivation.tree pending outer)) : Read derivation :=
  fun pending outer _ =>
    ⟨derivation.tree, pending, reads pending outer, fun _ _ => rfl, fun _ => ⟨rfl, rfl⟩⟩

theorem read_dot {target : Derivation (.level 4)} (mark : Mark .dot) (name : Name)
    (read : Read target) : Read (.dot target mark name) :=
  read_at_once fun pending outer =>
    reads_append (read_chain read pending outer) (reads_cons rfl (reads_one rfl))

theorem read_index {target : Derivation (.level 4)} (left : Mark .leftBracket)
    {key : Derivation .expression} (right : Mark .rightBracket)
    (readTarget : Read target) (readKey : Read key) : Read (.index target left key right) :=
  read_at_once fun pending outer =>
    reads_append (read_chain readTarget pending outer)
      (reads_cons rfl (read_expression_then readKey id rfl (reads_nil _)))

theorem read_call {callee : Derivation (.level 4)} (left : Mark .leftParenthesis)
    {values : Derivation .arguments} (right : Mark .rightParenthesis)
    (readCallee : Read callee) (readValues : Read values) :
    Read (.call callee left values right) :=
  read_at_once fun pending outer =>
    reads_append (read_chain readCallee pending outer)
      (reads_cons rfl (readValues callee.tree pending outer right))

theorem read_lexeme {level : Nat} {derivation : Derivation (.level level)} (token : Token)
    (tokens : derivation.tokens = [token])
    (step : ∀ pending outer, feedOperand pending outer token =
      some (.operator derivation.tree pending outer)) : Read derivation :=
  read_at_once fun pending outer => by
    rw [tokens]
    exact reads_one (step pending outer)

theorem read_table (left : Mark .leftBrace) {entries : Derivation .fields}
    (right : Mark .rightBrace) (read : Read entries) : Read (.table left entries right) :=
  read_at_once fun pending outer => reads_cons rfl (read pending outer right)

theorem read_parentheses (left : Mark .leftParenthesis) {inner : Derivation .expression}
    (right : Mark .rightParenthesis) (read : Read inner) :
    Read (.parentheses left inner right) :=
  read_at_once fun _ _ => reads_cons rfl (read_expression_then read id rfl (reads_nil _))

/-! Functions. -/

theorem read_moreParameters (header : Header) (others : List (Mark .comma × Name))
    (right : Mark .rightParenthesis) (rest : List Token) (next : State)
    (earlier : List String)
    (reads : Reads (.statement []
      (header.body (earlier.reverse ++ others.map fun next => next.2.text))) rest next) :
    Reads (.parameter header earlier) (Parameters.moreTokens others ++ right.token :: rest)
      next := by
  induction others generalizing earlier with
  | nil =>
      rw [List.map_nil, List.append_nil] at reads
      exact reads_cons rfl reads
  | cons one others ih =>
      refine reads_cons rfl (reads_cons rfl (ih (one.2.text :: earlier) ?_))
      rw [List.reverse_cons, List.append_assoc]
      exact reads

theorem read_parameters (header : Header) (parameters : Parameters)
    (right : Mark .rightParenthesis) (rest : List Token) (next : State)
    (reads : Reads (.statement [] (header.body parameters.names)) rest next) :
    Reads (.opened header) (parameters.tokens ++ right.token :: rest) next := by
  cases parameters with
  | none => exact reads_cons rfl reads
  | some first others =>
      exact reads_cons rfl (read_moreParameters header others right rest next [first.text] reads)

/-- A block with the token that closes it. -/
theorem read_block_then {body : Derivation .block} (read : Read body) {outer : Context .block}
    {token : Token} {next : State} (closes : Closes token.kind)
    (step : feedClosing body.tree.reverse outer token = some next) :
    Reads (.statement [] outer) (body.tokens ++ [token]) next := by
  obtain ⟨state, reads, answers⟩ := read outer
  exact reads_append reads (reads_one ((answers token closes).trans step))

theorem end_closes (finish : Word .endWord) : Closes finish.token.kind := by
  simp [Lexeme.token, Closes]

theorem read_function_body (header : Header) (left : Mark .leftParenthesis)
    (parameters : Parameters) (right : Mark .rightParenthesis) {body : Derivation .block}
    (finish : Word .endWord) (next : State) (read : Read body)
    (step : feedClosing body.tree.reverse (header.body parameters.names) finish.token =
      some next) :
    Reads (.header header)
      (left.token :: (parameters.tokens ++ right.token :: (body.tokens ++ [finish.token])))
      next :=
  reads_cons rfl (read_parameters header parameters right _ next
    (read_block_then read (end_closes finish) step))

theorem read_literal (word : Word .functionWord) (left : Mark .leftParenthesis)
    (parameters : Parameters) (right : Mark .rightParenthesis) {body : Derivation .block}
    (finish : Word .endWord) (read : Read body) :
    Read (.literal word left parameters right body finish) := by
  refine read_at_once fun pending outer => reads_cons rfl
    (read_function_body (.literal pending outer) left parameters right finish _ read ?_)
  change some (State.operator (.function parameters.names body.tree.reverse.reverse) pending outer)
    = _
  rw [List.reverse_reverse]
  rfl

/-! Arguments and fields. -/

theorem read_noMoreArguments : Read .noMoreArguments := by
  intro callee earlier value pending outer state right answers
  refine reads_one ((answers right.token id).trans ?_)
  change some (State.operator (.call callee (value :: earlier).reverse) pending outer) = _
  rw [List.reverse_cons]
  rfl

theorem read_moreArguments (comma : Mark .comma) {next : Derivation .expression}
    {others : Derivation .moreArguments} (readNext : Read next) (readOthers : Read others) :
    Read (.moreArguments comma next others) := by
  intro callee earlier value pending outer state right answers
  obtain ⟨middle, reads, answers'⟩ := read_expression readNext
    (.argument callee (value :: earlier) pending outer)
  have rest := readOthers callee (value :: earlier) next.tree pending outer middle right answers'
  rw [List.reverse_cons, List.append_assoc] at rest
  exact reads_cons (answers comma.token id) (reads_assoc (reads_append reads rest))

theorem read_noArguments : Read .noArguments :=
  fun _ _ _ _ => reads_one rfl

theorem read_arguments {first : Derivation .expression} {others : Derivation .moreArguments}
    (readFirst : Read first) (readOthers : Read others) : Read (.arguments first others) := by
  intro callee pending outer right
  obtain ⟨state, reads, answers⟩ := read_expression readFirst (.argument callee [] pending outer)
  have rest := readOthers callee [] first.tree pending outer state right answers
  have entered := enters (.arguments callee pending outer) (begins first).1 nofun reads
  exact reads_assoc (reads_append entered rest)

theorem read_keyed (left : Mark .leftBracket) {key : Derivation .expression}
    (right : Mark .rightBracket) (sign : Mark .assign) {value : Derivation .expression}
    (readKey : Read key) (readValue : Read value) : Read (.keyed left key right sign value) := by
  intro earlier pending outer
  obtain ⟨state, reads, answers⟩ := read_expression readValue
    (.keyed earlier key.tree pending outer)
  refine ⟨state, reads_cons rfl (read_expression_then readKey id rfl (reads_cons rfl reads)),
    fun token ends => ?_⟩
  exact answers token (endsField_detached ends).2

theorem read_named (name : Name) (sign : Mark .assign) {value : Derivation .expression}
    (read : Read value) : Read (.named name sign value) := by
  intro earlier pending outer
  obtain ⟨state, reads, answers⟩ := read_expression read (.named earlier name.text pending outer)
  exact ⟨state, reads_cons rfl (reads_cons rfl reads),
    fun token ends => answers token (endsField_detached ends).2⟩

theorem read_positional {value : Derivation .expression} (read : Read value) :
    Read (.positional value) := by
  intro earlier pending outer
  obtain ⟨state, reads, answers⟩ := read_expression read (.positional earlier pending outer)
  -- A lone name might still turn out to be the key of a field.
  by_cases alone : ∃ name, value.tokens = [name] ∧ name.kind = .name
  · obtain ⟨token, single, isName⟩ := alone
    obtain ⟨name, rfl⟩ := lexeme_exists isName
    rw [single] at reads
    cases reads
    refine ⟨.fieldName earlier name.text pending outer, ?_, fun token ends => ?_⟩
    · change Reads _ value.tokens _
      rw [single]
      exact reads_one rfl
    · rw [feed_fieldName earlier name.text pending outer token (endsField_detached ends).1]
      exact answers token (endsField_detached ends).2
  · refine ⟨state, enters (.field earlier pending outer) (begins value).1 ?_ reads,
      fun token ends => answers token (endsField_detached ends).2⟩
    intro _ _ _ _ name single isName
    exact alone ⟨name, single, isName⟩

theorem separator_endsField (separator : Separator) : EndsField separator.token.kind := by
  cases separator with
  | comma | semicolon => simp [Separator.token, Lexeme.token, EndsField]

theorem feedFieldEnd_separator (earlier : List Field) (pending : List Pending)
    (outer : Context .expression) (separator : Separator) :
    feedFieldEnd earlier pending outer separator.token = some (.field earlier pending outer) := by
  cases separator with
  | comma | semicolon => rfl

theorem read_noMoreFields : Read .noMoreFields :=
  fun _ _ _ state answers => ⟨state, reads_nil state, answers⟩

theorem read_moreFields (separator : Separator) {next : Derivation .field}
    {others : Derivation .moreFields} (readNext : Read next) (readOthers : Read others) :
    Read (.moreFields separator next others) := by
  intro earlier pending outer state answers
  have step := (answers separator.token (separator_endsField separator)).trans
    (feedFieldEnd_separator earlier pending outer separator)
  obtain ⟨middle, reads, answers'⟩ := readNext earlier pending outer
  obtain ⟨last, reads', answers''⟩ :=
    readOthers (next.tree :: earlier) pending outer middle answers'
  refine ⟨last, reads_cons step (reads_append reads reads'), fun token ends => ?_⟩
  rw [answers'' token ends]
  change _ = feedFieldEnd ((next.tree :: others.tree).reverse ++ earlier) pending outer token
  rw [List.reverse_cons, List.append_assoc]
  rfl

theorem read_noFields : Read .noFields :=
  fun _ _ _ => reads_one rfl

theorem read_fields {first : Derivation .field} {others : Derivation .moreFields}
    (last : Option Separator) (readFirst : Read first) (readOthers : Read others) :
    Read (.fields first others last) := by
  intro pending outer right
  obtain ⟨state, reads, answers⟩ := readFirst [] pending outer
  obtain ⟨middle, reads', answers'⟩ := readOthers [first.tree] pending outer state answers
  have entries : (others.tree.reverse ++ [first.tree]).reverse = first.tree :: others.tree := by
    rw [List.reverse_append, List.reverse_reverse]
    rfl
  have closed : Reads middle (lastSeparator last ++ [right.token])
      (.operator (.table (first.tree :: others.tree)) pending outer) := by
    rw [← entries]
    cases last with
    | none => exact reads_one (answers' right.token (by simp [Lexeme.token, EndsField]))
    | some separator =>
        have step := (answers' separator.token (separator_endsField separator)).trans
          (feedFieldEnd_separator _ pending outer separator)
        exact reads_cons step (reads_one rfl)
  exact reads_assoc (reads_append reads (reads_assoc (reads_append reads' closed)))

/-! Statements. -/

theorem read_empty (mark : Mark .semicolon) : Read (.empty mark) :=
  fun before outer => ⟨.statement before outer, reads_one rfl, fun _ _ _ => rfl⟩

theorem feed_declared (name : String) (before : Block) (outer : Context .block) (token : Token)
    (noSign : token.kind ≠ .symbol .assign) :
    feed (.declared name before outer) token =
      feedStatement (.declare name none :: before) outer token := by
  obtain ⟨kind, text, position⟩ := token
  cases kind with
  | symbol mark =>
      cases mark with
      | assign => exact absurd rfl noSign
      | _ => rfl
  | _ => rfl

theorem read_declare (word : Word .localWord) (name : Name) : Read (.declare word name) :=
  fun before outer => ⟨.declared name.text before outer, reads_cons rfl (reads_one rfl),
    fun token noSign _ => feed_declared name.text before outer token noSign⟩

theorem read_declareAs (word : Word .localWord) (name : Name) (sign : Mark .assign)
    {value : Derivation .expression} (read : Read value) :
    Read (.declareAs word name sign value) := by
  intro before outer
  obtain ⟨state, reads, answers⟩ := read_expression read (.declared name.text before outer)
  exact ⟨state, reads_cons rfl (reads_cons rfl (reads_cons rfl reads)),
    fun token _ stops => answers token (stops trivial)⟩

theorem feedComplete_evaluated (expression : Expression) (position : Position) (before : Block)
    (outer : Context .block) (token : Token) (noSign : token.kind ≠ .symbol .assign) :
    feedComplete expression (.evaluated position before outer) token =
      feedStatement (.evaluate expression :: before) outer token := by
  obtain ⟨kind, text, position⟩ := token
  cases kind with
  | symbol mark =>
      cases mark with
      | assign => exact absurd rfl noSign
      | _ => rfl
  | _ => rfl

theorem read_evaluate {expression : Derivation .expression} (read : Read expression) :
    Read (.evaluate expression) := by
  intro before outer
  obtain ⟨state, reads, answers⟩ := read_expression read
    (.evaluated (startOf expression.tokens) before outer)
  refine ⟨state, enters (.statement before outer) (begins expression).1 nofun reads,
    fun token noSign stops => ?_⟩
  exact (answers token (stops trivial)).trans
    (feedComplete_evaluated expression.tree _ before outer token noSign)

theorem read_assign {target : Derivation .expression} (sign : Mark .assign)
    {value : Derivation .expression} (readTarget : Read target) (readValue : Read value) :
    Read (.assign target sign value) := by
  intro before outer
  obtain ⟨middle, reads, answers⟩ := read_expression readTarget
    (.evaluated (startOf target.tokens) before outer)
  obtain ⟨state, reads', answers'⟩ := read_expression readValue
    (.assigned (startOf target.tokens) target.tree before outer)
  have entered := enters (.statement before outer) (begins target).1 nofun reads
  exact ⟨state, reads_append entered (reads_cons (answers sign.token id) reads'),
    fun token _ stops => answers' token (stops trivial)⟩

/-- A statement that ends with a word leads to the start of the next one. -/
theorem read_complete {derivation : Derivation .statement}
    (reads : ∀ before outer, Reads (.statement before outer) derivation.tokens
      (.statement (derivation.tree.reverse ++ before) outer)) : Read derivation :=
  fun before outer => ⟨_, reads before outer, fun _ _ _ => rfl⟩

theorem read_function (word : Word .functionWord) (name : Name) (left : Mark .leftParenthesis)
    (parameters : Parameters) (right : Mark .rightParenthesis) {body : Derivation .block}
    (finish : Word .endWord) (read : Read body) :
    Read (.function word name left parameters right body finish) := by
  refine read_complete fun before outer => reads_cons rfl (reads_cons rfl
    (read_function_body (.declaration name.text before outer) left parameters right finish
      _ read ?_))
  change some (State.statement
    (.function name.text parameters.names body.tree.reverse.reverse :: before) outer) = _
  rw [List.reverse_reverse]
  rfl

/-- The body of a loop, behind the word in front of it. -/
theorem read_loop_body {body : Derivation .block} (finish : Word .endWord) {counter : String}
    {start limit : Expression} {step : Option Expression} (before : Block)
    (outer : Context .block) (read : Read body) :
    Reads (.statement [] (.rounds counter start limit step before outer))
      (body.tokens ++ [finish.token])
      (.statement (.loop counter start limit step body.tree :: before) outer) := by
  apply read_block_then read (end_closes finish)
  change some (State.statement
    (.loop counter start limit step body.tree.reverse.reverse :: before) outer) = _
  rw [List.reverse_reverse]

theorem read_loop (word : Word .forWord) (counter : Name) (sign : Mark .assign)
    {start : Derivation .expression} (comma : Mark .comma) {limit : Derivation .expression}
    (follows : Word .doWord) {body : Derivation .block} (finish : Word .endWord)
    (readStart : Read start) (readLimit : Read limit) (readBody : Read body) :
    Read (.loop word counter sign start comma limit follows body finish) := by
  refine read_complete fun before outer =>
    reads_cons rfl (reads_cons rfl (reads_cons rfl ?_))
  apply read_expression_then readStart id rfl
  apply read_expression_then readLimit id rfl
  exact read_loop_body finish before outer readBody

theorem read_loopBy (word : Word .forWord) (counter : Name) (sign : Mark .assign)
    {start : Derivation .expression} (comma : Mark .comma) {limit : Derivation .expression}
    (comma' : Mark .comma) {step : Derivation .expression}
    (follows : Word .doWord) {body : Derivation .block} (finish : Word .endWord)
    (readStart : Read start) (readLimit : Read limit) (readStep : Read step)
    (readBody : Read body) :
    Read (.loopBy word counter sign start comma limit comma' step follows body finish) := by
  refine read_complete fun before outer =>
    reads_cons rfl (reads_cons rfl (reads_cons rfl ?_))
  apply read_expression_then readStart id rfl
  apply read_expression_then readLimit id rfl
  apply read_expression_then readStep id rfl
  exact read_loop_body finish before outer readBody

/-! Branches. -/

theorem read_noBranches : Read .noBranches := by
  intro earlier condition body before outer state answers
  exact ⟨earlier, condition, body, state, reads_nil state, answers, rfl,
    (List.append_nil _).symm⟩

/-- A condition with the word and the block behind it. -/
theorem read_guarded {condition : Derivation .expression} (follows : Word .thenWord)
    {body : Derivation .block} (readCondition : Read condition) (readBody : Read body)
    (earlier : Branches) (before : Block) (outer : Context .block) :
    ∃ state,
      (∀ rest next, Reads state rest next →
        Reads (.operand [] (.condition earlier before outer))
          (condition.tokens ++ follows.token :: (body.tokens ++ rest)) next) ∧
      ∀ token, Closes token.kind → feed state token =
        feedClosing body.tree.reverse (.branch earlier condition.tree before outer) token := by
  obtain ⟨state, reads, answers⟩ := readBody (.branch earlier condition.tree before outer)
  exact ⟨state, fun rest next after =>
    read_expression_then readCondition id rfl (reads_append reads after), answers⟩

theorem extend_some (branches : Branch × List Branch) (branch : Branch) :
    Branches.extend (some branches) branch = (branches.1, branches.2 ++ [branch]) :=
  rfl

theorem read_moreBranches (word : Word .elseifWord) {condition : Derivation .expression}
    (follows : Word .thenWord) {body : Derivation .block} {others : Derivation .branches}
    (readCondition : Read condition) (readBody : Read body) (readOthers : Read others) :
    Read (.moreBranches word condition follows body others) := by
  intro earlier condition' body' before outer state answers
  have step := answers word.token (by simp [Lexeme.token, Closes])
  obtain ⟨middle, reads, answers'⟩ := read_guarded follows readCondition readBody
    (some (earlier.extend (.mk condition' body'.reverse))) before outer
  obtain ⟨earlier'', condition'', body'', next, reads', answers'', first, rest⟩ :=
    readOthers _ condition.tree body.tree.reverse before outer middle answers'
  refine ⟨earlier'', condition'', body'', next, reads_cons step (reads others.tokens next reads'),
    answers'', first, ?_⟩
  rw [extend_some, List.reverse_reverse, List.append_assoc] at rest
  exact rest

theorem read_noAlternative : Read .noAlternative :=
  fun _ _ _ _ _ _ finish answers => reads_one (answers finish.token (end_closes finish))

theorem read_alternative (word : Word .elseWord) {body : Derivation .block} (read : Read body) :
    Read (.alternative word body) := by
  intro earlier condition body' before outer state finish answers
  have step := answers word.token (by simp [Lexeme.token, Closes])
  refine reads_cons step (read_block_then read (end_closes finish) ?_)
  change some (State.statement
    (.choose _ _ (some body.tree.reverse.reverse) :: before) outer) = _
  rw [List.reverse_reverse]
  rfl

theorem read_choose (word : Word .ifWord) {condition : Derivation .expression}
    (follows : Word .thenWord) {body : Derivation .block} {others : Derivation .branches}
    {otherwise : Derivation .alternative} (finish : Word .endWord)
    (readCondition : Read condition) (readBody : Read body) (readOthers : Read others)
    (readOtherwise : Read otherwise) :
    Read (.choose word condition follows body others otherwise finish) := by
  refine read_complete fun before outer => ?_
  obtain ⟨middle, reads, answers⟩ :=
    read_guarded follows readCondition readBody none before outer
  obtain ⟨earlier, condition', body', next, reads', answers', first, rest⟩ :=
    readOthers none condition.tree body.tree.reverse before outer middle answers
  have last := readOtherwise earlier condition' body' before outer next finish answers'
  rw [first, rest, List.reverse_reverse] at last
  exact reads_cons rfl (reads _ _ (reads_append reads' last))

/-! Blocks. -/

theorem read_noStatements : Read .noStatements :=
  fun before outer => ⟨.statement before outer, reads_nil _, fun _ _ => rfl⟩

theorem read_moreStatements {first : Derivation .statement} {others : Derivation .statements}
    (readFirst : Read first) (readOthers : Read others)
    (apart : first.EndsInExpression → ∀ token ∈ others.tokens.head?, ¬ IsGlue token.kind) :
    Read (.moreStatements first others) := by
  intro before outer
  obtain ⟨middle, reads, answers⟩ := readFirst before outer
  obtain ⟨state, reads', answers'⟩ := readOthers (first.tree.reverse ++ before) outer
  have assembled : (first.tree ++ others.tree).reverse ++ before =
      others.tree.reverse ++ (first.tree.reverse ++ before) := by
    rw [List.reverse_append, List.append_assoc]
  -- The first token of the next statement is where two statements could run together: `apart` and
  -- the follow set of the first one exclude it.
  cases others with
  | noStatements =>
      refine ⟨middle, reads_append reads (reads_nil middle), fun token detached => ?_⟩
      exact (answers token detached.1 fun _ => detached.2).trans
        (congrArg (feedStatement · outer token) assembled.symm)
  | moreStatements second rest =>
      obtain ⟨token, tail, same, follows⟩ := statement_follows second
      have tokens : (Derivation.moreStatements second rest).tokens =
          token :: (tail ++ rest.tokens) := congrArg (· ++ rest.tokens) same
      rw [tokens] at reads' apart
      have step : feed middle token =
          feed (.statement (first.tree.reverse ++ before) outer) token :=
        answers token follows.1 fun ends continues =>
          apart ends token rfl (follows.2 continues)
      refine ⟨state, ?_, fun token detached => ?_⟩
      · change Reads _ (first.tokens ++ (Derivation.moreStatements second rest).tokens) state
        rw [tokens]
        exact reads_append reads (reads_congr step reads')
      · exact (answers' token detached).trans
          (congrArg (feedStatement · outer token) assembled.symm)

theorem read_noReturn : Read .noReturn := by
  intro before outer state answers
  refine ⟨state, reads_nil state, fun token closes => ?_⟩
  rw [answers token (closes_detached closes), feedStatement_closes before outer token closes]
  rfl

theorem feedReturned_closes (value : Option Expression) (before : Block)
    (outer : Context .block) (token : Token) (closes : Closes token.kind) :
    feedReturned value before outer token =
      feedClosing (.returns value :: before) outer token := by
  obtain ⟨kind, text, position⟩ := token
  simp only [Closes, List.mem_cons, List.not_mem_nil, or_false] at closes
  rcases closes with rfl | rfl | rfl | rfl <;> rfl

/-- The tokens that can stand behind a `return` and its value. -/
def EndsReturn (kind : Token.Kind) : Prop :=
  kind = .symbol .semicolon ∨ Closes kind

/-- The semicolon behind a `return`, if there is one. -/
theorem read_stop (value : Option Expression) (before : Block) (outer : Context .block)
    (state : State) (stop : Option (Mark .semicolon))
    (answers : ∀ token, EndsReturn token.kind →
      feed state token = feedReturned value before outer token) :
    ∃ next, Reads state (optionalTokens stop) next ∧
      ∀ token, Closes token.kind →
        feed next token = feedClosing (.returns value :: before) outer token := by
  cases stop with
  | none =>
      refine ⟨state, reads_nil state, fun token closes => ?_⟩
      rw [answers token (Or.inr closes), feedReturned_closes value before outer token closes]
  | some mark =>
      exact ⟨.closing (.returns value :: before) outer,
        reads_one (answers mark.token (Or.inl rfl)), fun _ _ => rfl⟩

theorem return_detached (word : Word .returnWord) : Detached word.token.kind := by
  simp [Lexeme.token, Detached, Continues]

theorem read_returnsNothing (word : Word .returnWord) (stop : Option (Mark .semicolon)) :
    Read (.returnsNothing word stop) := by
  intro before outer state answers
  have silent : ∀ token, EndsReturn token.kind →
      feed (.returning before outer) token = feedReturned none before outer token := by
    rintro ⟨kind, text, position⟩ ends
    simp only [EndsReturn, Closes, List.mem_cons, List.not_mem_nil, or_false] at ends
    rcases ends with rfl | rfl | rfl | rfl | rfl <;> rfl
  obtain ⟨next, reads, closes⟩ := read_stop none before outer _ stop silent
  exact ⟨next, reads_cons (answers word.token (return_detached word)) reads, closes⟩

theorem read_returns (word : Word .returnWord) {value : Derivation .expression}
    (stop : Option (Mark .semicolon)) (read : Read value) :
    Read (.returns word value stop) := by
  intro before outer state answers
  obtain ⟨middle, reads, answers'⟩ := read_expression read (.returned before outer)
  have entered := enters (.returning before outer) (begins value).1 nofun reads
  have ends : ∀ token, EndsReturn token.kind →
      feed middle token = feedReturned (some value.tree) before outer token := by
    rintro token (isStop | closes)
    · exact answers' token (by simp [isStop, Continues])
    · exact answers' token (closes_detached closes).2
  obtain ⟨next, reads', closes⟩ := read_stop (some value.tree) before outer middle stop ends
  exact ⟨next, reads_cons (answers word.token (return_detached word))
    (reads_append entered reads'), closes⟩

theorem read_block {statements : Derivation .statements} {closing : Derivation .closing}
    (readStatements : Read statements) (readClosing : Read closing) :
    Read (.block statements closing) := by
  intro outer
  obtain ⟨middle, reads, answers⟩ := readStatements [] outer
  obtain ⟨state, reads', answers'⟩ := readClosing _ outer middle answers
  refine ⟨state, reads_append reads reads', fun token closes => ?_⟩
  rw [answers' token closes, List.append_nil, ← List.reverse_append]
  rfl

-- By induction on the derivation, with one lemma for each production. Only statements in a row need
-- to know that the derivation is resolved.
/-- Every phrase of a resolved derivation is read as its tree. -/
theorem read {category : Category} (derivation : Derivation category)
    (resolved : derivation.Resolved) : Read derivation := by
  induction derivation with
  | block _ _ ih ih' => exact read_block (ih resolved.1) (ih' resolved.2)
  | noStatements => exact read_noStatements
  | moreStatements _ _ ih ih' =>
      exact read_moreStatements (ih resolved.1) (ih' resolved.2.1) resolved.2.2
  | noReturn => exact read_noReturn
  | returnsNothing word stop => exact read_returnsNothing word stop
  | returns word _ stop ih => exact read_returns word stop (ih resolved)
  | empty mark => exact read_empty mark
  | declare word name => exact read_declare word name
  | declareAs word name sign _ ih => exact read_declareAs word name sign (ih resolved)
  | function word name left parameters right _ finish ih =>
      exact read_function word name left parameters right finish (ih resolved)
  | choose word _ follows _ _ _ finish ih ihBody ihOthers ihOtherwise =>
      exact read_choose word follows finish (ih resolved.1) (ihBody resolved.2.1)
        (ihOthers resolved.2.2.1) (ihOtherwise resolved.2.2.2)
  | loop word counter sign _ comma _ follows _ finish ih ihLimit ihBody =>
      exact read_loop word counter sign comma follows finish (ih resolved.1)
        (ihLimit resolved.2.1) (ihBody resolved.2.2)
  | loopBy word counter sign _ comma _ comma' _ follows _ finish ih ihLimit ihStep ihBody =>
      exact read_loopBy word counter sign comma comma' follows finish (ih resolved.1)
        (ihLimit resolved.2.1) (ihStep resolved.2.2.1) (ihBody resolved.2.2.2)
  | assign _ sign _ ih ih' => exact read_assign sign (ih resolved.1) (ih' resolved.2)
  | evaluate _ ih => exact read_evaluate (ih resolved)
  | noBranches => exact read_noBranches
  | moreBranches word _ follows _ _ ih ihBody ihOthers =>
      exact read_moreBranches word follows (ih resolved.1) (ihBody resolved.2.1)
        (ihOthers resolved.2.2)
  | noAlternative => exact read_noAlternative
  | alternative word _ ih => exact read_alternative word (ih resolved)
  | noArguments => exact read_noArguments
  | arguments _ _ ih ih' => exact read_arguments (ih resolved.1) (ih' resolved.2)
  | noMoreArguments => exact read_noMoreArguments
  | moreArguments comma _ _ ih ih' =>
      exact read_moreArguments comma (ih resolved.1) (ih' resolved.2)
  | noFields => exact read_noFields
  | fields _ _ last ih ih' => exact read_fields last (ih resolved.1) (ih' resolved.2)
  | noMoreFields => exact read_noMoreFields
  | moreFields separator _ _ ih ih' =>
      exact read_moreFields separator (ih resolved.1) (ih' resolved.2)
  | positional _ ih => exact read_positional (ih resolved)
  | named name sign _ ih => exact read_named name sign (ih resolved)
  | keyed left _ right sign _ ih ih' =>
      exact read_keyed left right sign (ih resolved.1) (ih' resolved.2)
  | operand bound _ ih => exact read_operand bound (ih resolved)
  | binary _ _ same mark _ ih ih' => exact read_binary same mark (ih resolved.1) (ih' resolved.2)
  | negate mark _ ih => exact read_negate mark (ih resolved)
  | dot _ mark name ih => exact read_dot mark name (ih resolved)
  | index _ left _ right ih ih' => exact read_index left right (ih resolved.1) (ih' resolved.2)
  | call _ left _ right ih ih' => exact read_call left right (ih resolved.1) (ih' resolved.2)
  | number lexeme | string lexeme | truth lexeme | falsehood lexeme | nil lexeme
  | reference lexeme =>
      exact read_lexeme lexeme.token rfl fun _ _ => rfl
  | table left _ right ih => exact read_table left right (ih resolved)
  | literal word left parameters right _ finish ih =>
      exact read_literal word left parameters right finish (ih resolved)
  | parentheses left _ right ih => exact read_parentheses left right (ih resolved)

/-- The reader accepts every program that the grammar derives, with its tree. -/
theorem accepts_derivation (derivation : Derivation .block) (resolved : derivation.Resolved)
    (finish : Lexeme .finish) :
    Reads start (derivation.tokens ++ [finish.token]) (.accepted derivation.tree) := by
  apply read_block_then (read derivation resolved) (by simp [Lexeme.token, Closes])
  change some (State.accepted derivation.tree.reverse.reverse) = _
  rw [List.reverse_reverse]

end LuaCore.Tree.Grammar
