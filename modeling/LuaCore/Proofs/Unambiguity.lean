import LuaCore.Proofs.Growth

/-!
A sequence of tokens has at most one resolved derivation. Two phrases of a category that start at
the same token are the same phrase, if what stands behind each of them cannot belong to it.
-/

namespace LuaCore.Tree.Grammar

theorem append_same {first second rest first' second' more : List Token}
    (same : first ++ second ++ rest = first' ++ second' ++ more) :
    first ++ (second ++ rest) = first' ++ (second' ++ more) := by
  rw [← List.append_assoc, ← List.append_assoc]
  exact same

theorem level_ne_five (operation : Operation) : operation.level ≠ 5 := by
  have two := level_le_two operation
  omega

theorem determined_table (left : Mark .leftBrace) {entries : Derivation .fields}
    (right : Mark .rightBrace) (unique : Unique entries) :
    Determined (.table left entries right) := by
  intro other rest more resolved same _ _
  cases other with
  | operand bound => omega
  | binary _ operation fits => exact absurd fits (level_ne_five operation)
  | table left' entries' right' =>
      obtain ⟨rfl, inside⟩ := lexeme_cons same
      obtain ⟨rfl, behind⟩ := unique entries' _ _ resolved (append_same inside) ⟨right, rest, rfl⟩
        ⟨right', more, rfl⟩
      obtain ⟨rfl, _⟩ := lexeme_cons behind
      exact grows_alone rfl
  | _ => cases first_kind same

theorem determined_parentheses (left : Mark .leftParenthesis) {inner : Derivation .expression}
    (right : Mark .rightParenthesis) (unique : Unique inner) :
    Determined (.parentheses left inner right) := by
  intro other rest more resolved same _ _
  cases other with
  | operand bound => omega
  | binary _ operation fits => exact absurd fits (level_ne_five operation)
  | parentheses left' inner' right' =>
      obtain ⟨rfl, inside⟩ := lexeme_cons same
      obtain ⟨rfl, behind⟩ := unique inner' _ _ resolved (append_same inside) (halts_cons id _)
        (halts_cons id _)
      obtain ⟨rfl, _⟩ := lexeme_cons behind
      exact grows_alone rfl
  | _ => cases first_kind same

theorem moreTokens_unique {others others' : List (Mark .comma × Name)}
    {right right' : Mark .rightParenthesis} {rest more : List Token}
    (same : Parameters.moreTokens others ++ right.token :: rest =
      Parameters.moreTokens others' ++ right'.token :: more) :
    others = others' ∧ right = right' ∧ rest = more := by
  induction others generalizing others' with
  | nil =>
      cases others' with
      | nil =>
          obtain ⟨rfl, rfl⟩ := lexeme_cons same
          exact ⟨rfl, rfl, rfl⟩
      | cons next others' => cases first_kind same
  | cons next others ih =>
      cases others' with
      | nil => cases first_kind same
      | cons next' others' =>
          obtain ⟨commas, behind⟩ := lexeme_cons same
          obtain ⟨names, behind⟩ := lexeme_cons behind
          obtain ⟨rfl, rfl, rfl⟩ := ih behind
          exact ⟨congrArg (· :: others) (Prod.ext commas names), rfl, rfl⟩

theorem parameters_unique {parameters parameters' : Parameters}
    {right right' : Mark .rightParenthesis} {rest more : List Token}
    (same : parameters.tokens ++ right.token :: rest =
      parameters'.tokens ++ right'.token :: more) :
    parameters = parameters' ∧ right = right' ∧ rest = more := by
  cases parameters with
  | none =>
      cases parameters' with
      | none =>
          obtain ⟨rfl, rfl⟩ := lexeme_cons same
          exact ⟨rfl, rfl, rfl⟩
      | some => cases first_kind same
  | some first others =>
      cases parameters' with
      | none => cases first_kind same
      | some first' others' =>
          obtain ⟨rfl, behind⟩ := lexeme_cons same
          obtain ⟨rfl, rfl, rfl⟩ := moreTokens_unique behind
          exact ⟨rfl, rfl, rfl⟩

theorem end_beyond_block (finish : Word .endWord) (body : Derivation .block) (rest : List Token) :
    Beyond body (finish.token :: rest) := by
  rintro _ ⟨⟩
  simp [Lexeme.token, Closes]

/-- The parameters and the body of a function. -/
theorem function_unique {parameters parameters' : Parameters}
    {right right' : Mark .rightParenthesis} {body body' : Derivation .block}
    {finish finish' : Word .endWord} {rest more : List Token} (unique : Unique body)
    (resolved : body'.Resolved)
    (same : parameters.tokens ++ right.token :: (body.tokens ++ [finish.token]) ++ rest =
      parameters'.tokens ++ right'.token :: (body'.tokens ++ [finish'.token]) ++ more) :
    parameters = parameters' ∧ right = right' ∧ body = body' ∧ finish = finish' ∧ rest = more := by
  simp only [List.append_assoc, List.cons_append] at same
  obtain ⟨rfl, rfl, inside⟩ := parameters_unique same
  obtain ⟨rfl, behind⟩ := unique body' _ _ resolved inside (end_beyond_block finish _ _)
    (end_beyond_block finish' _ _)
  obtain ⟨rfl, rfl⟩ := lexeme_cons behind
  exact ⟨rfl, rfl, rfl, rfl, rfl⟩

theorem determined_literal (word : Word .functionWord) (left : Mark .leftParenthesis)
    (parameters : Parameters) (right : Mark .rightParenthesis) {body : Derivation .block}
    (finish : Word .endWord) (unique : Unique body) :
    Determined (.literal word left parameters right body finish) := by
  intro other rest more resolved same _ _
  cases other with
  | operand bound => omega
  | binary _ operation fits => exact absurd fits (level_ne_five operation)
  | literal word' left' parameters' right' body' finish' =>
      obtain ⟨rfl, behind⟩ := lexeme_cons same
      obtain ⟨rfl, inside⟩ := lexeme_cons behind
      obtain ⟨rfl, rfl, rfl, rfl, _⟩ := function_unique unique resolved inside
      exact grows_alone rfl
  | _ => cases first_kind same

/-! Arguments and fields. -/

/-- The kinds of tokens that an expression can start with. -/
def StartsOperand (kind : Token.Kind) : Prop :=
  OpensOperand kind ∨ kind = .name ∨ kind = .keyword .functionWord

theorem expression_first (derivation : Derivation .expression) :
    ∃ first rest, derivation.tokens = first :: rest ∧ StartsOperand first.kind := by
  have starts := (begins derivation).1
  generalize derivation.tokens = tokens at starts
  cases starts with
  | operand first rest opens => exact ⟨first, rest, rfl, Or.inl opens⟩
  | name first rest isName _ => exact ⟨first, rest, rfl, Or.inr (Or.inl isName)⟩
  | function first second rest isFunction _ =>
      exact ⟨first, second :: rest, rfl, Or.inr (Or.inr isFunction)⟩

/-- An expression does not start where something else has to. -/
theorem expression_differs (derivation : Derivation .expression) {tokens others rest : List Token}
    (other : ∀ token ∈ tokens.head?, ¬ StartsOperand token.kind) :
    tokens ≠ derivation.tokens ++ others ++ rest := by
  rintro rfl
  obtain ⟨first, more, same, starts⟩ := expression_first derivation
  rw [same] at other
  exact other first rfl starts

theorem right_starts {rest : List Token}
    (beyond : ∀ token ∈ rest.head?, token.kind = .symbol .rightParenthesis) :
    ∀ token ∈ rest.head?, ¬ StartsOperand token.kind := by
  intro token member
  rw [beyond token member]
  simp [StartsOperand, OpensOperand]

theorem unique_noArguments : Unique .noArguments := by
  intro other rest more _ same beyond _
  cases other with
  | noArguments => exact unique_of_eq rfl same
  | arguments first others => exact absurd same (expression_differs first (right_starts beyond))

theorem halts_arguments {rest : List Token}
    (beyond : ∀ token ∈ rest.head?, token.kind = .symbol .rightParenthesis)
    (others : Derivation .moreArguments) : Halts 0 (others.tokens ++ rest) := by
  cases others with
  | noMoreArguments =>
      intro token member
      rw [beyond token member]
      exact id
  | moreArguments comma next others => exact halts_cons id _

theorem unique_arguments {first : Derivation .expression} {others : Derivation .moreArguments}
    (unique : Unique first) (uniqueOthers : Unique others) : Unique (.arguments first others) := by
  intro other rest more resolved same beyond beyond'
  cases other with
  | noArguments => exact absurd same.symm (expression_differs first (right_starts beyond'))
  | arguments first' others' =>
      obtain ⟨rfl, behind⟩ := unique first' _ _ resolved.1 (append_same same)
        (halts_arguments beyond others) (halts_arguments beyond' others')
      obtain ⟨rfl, rfl⟩ := uniqueOthers others' _ _ resolved.2 behind beyond beyond'
      exact ⟨rfl, rfl⟩

theorem unique_noMoreArguments : Unique .noMoreArguments := by
  intro other rest more _ same beyond _
  cases other with
  | noMoreArguments => exact unique_of_eq rfl same
  | moreArguments comma next others =>
      have starts : rest = comma.token :: (next.tokens ++ others.tokens) ++ more := same
      subst starts
      cases beyond comma.token rfl

theorem unique_moreArguments (comma : Mark .comma) {next : Derivation .expression}
    {others : Derivation .moreArguments} (unique : Unique next) (uniqueOthers : Unique others) :
    Unique (.moreArguments comma next others) := by
  intro other rest more resolved same beyond beyond'
  cases other with
  | noMoreArguments =>
      have starts : comma.token :: (next.tokens ++ others.tokens) ++ rest = more := same
      subst starts
      cases beyond' comma.token rfl
  | moreArguments comma' next' others' =>
      obtain ⟨rfl, inside⟩ := lexeme_cons same
      obtain ⟨rfl, behind⟩ := unique next' _ _ resolved.1 (append_same inside)
        (halts_arguments beyond others) (halts_arguments beyond' others')
      obtain ⟨rfl, rfl⟩ := uniqueOthers others' _ _ resolved.2 behind beyond beyond'
      exact ⟨rfl, rfl⟩

/-- In front of the end of a field, a value is not taken for a key. -/
theorem value_starts (value : Derivation .expression) {rest : List Token}
    (ends : ∀ token ∈ rest.head?, EndsField token.kind) :
    StartsExpression (value.tokens ++ rest) := by
  refine startsExpression_append (begins value).1 rest fun token member => ?_
  exact (endsField_detached (ends token member)).1

theorem name_key_starts (name : Name) (sign : Mark .assign) (rest : List Token) :
    ¬ StartsExpression (name.token :: sign.token :: rest) := by
  intro starts
  cases starts with
  | operand _ _ opens => simp [Lexeme.token, OpensOperand] at opens
  | name _ _ _ behind => exact behind sign.token rfl rfl
  | function _ _ _ isFunction => cases isFunction

theorem bracket_starts (left : Mark .leftBracket) (rest : List Token) :
    ¬ StartsExpression (left.token :: rest) := by
  intro starts
  cases starts with
  | operand _ _ opens => simp [Lexeme.token, OpensOperand] at opens
  | name _ _ isName => cases isName
  | function _ _ _ isFunction => cases isFunction

theorem halts_field {rest : List Token} (ends : ∀ token ∈ rest.head?, EndsField token.kind) :
    Halts 0 rest :=
  fun token member => (endsField_detached (ends token member)).2

theorem unique_positional {value : Derivation .expression} (unique : Unique value) :
    Unique (.positional value) := by
  intro other rest more resolved same ends ends'
  have starts := value_starts value ends
  cases other with
  | positional value' =>
      obtain ⟨rfl, rfl⟩ := unique value' rest more resolved same (halts_field ends)
        (halts_field ends')
      exact ⟨rfl, rfl⟩
  | named name sign value' =>
      have same : value.tokens ++ rest = name.token :: sign.token :: (value'.tokens ++ more) := same
      rw [same] at starts
      exact absurd starts (name_key_starts name sign _)
  | keyed left key right sign value' =>
      have same : value.tokens ++ rest = left.token :: (_ ++ more) := same
      rw [same] at starts
      exact absurd starts (bracket_starts left _)

theorem unique_named (name : Name) (sign : Mark .assign) {value : Derivation .expression}
    (unique : Unique value) : Unique (.named name sign value) := by
  intro other rest more resolved same ends ends'
  cases other with
  | positional value' =>
      have starts := value_starts value' ends'
      have same : name.token :: sign.token :: (value.tokens ++ rest) = value'.tokens ++ more := same
      rw [← same] at starts
      exact absurd starts (name_key_starts name sign _)
  | named name' sign' value' =>
      obtain ⟨rfl, signed⟩ := lexeme_cons same
      obtain ⟨rfl, behind⟩ := lexeme_cons signed
      obtain ⟨rfl, rfl⟩ := unique value' rest more resolved behind (halts_field ends)
        (halts_field ends')
      exact ⟨rfl, rfl⟩
  | keyed => cases first_kind same

theorem unique_keyed (left : Mark .leftBracket) {key : Derivation .expression}
    (right : Mark .rightBracket) (sign : Mark .assign) {value : Derivation .expression}
    (uniqueKey : Unique key) (unique : Unique value) :
    Unique (.keyed left key right sign value) := by
  intro other rest more resolved same ends ends'
  cases other with
  | positional value' =>
      have starts := value_starts value' ends'
      have same : left.token :: (_ ++ rest) = value'.tokens ++ more := same
      rw [← same] at starts
      exact absurd starts (bracket_starts left _)
  | named => cases first_kind same
  | keyed left' key' right' sign' value' =>
      obtain ⟨rfl, inside⟩ := lexeme_cons same
      obtain ⟨rfl, closed⟩ := uniqueKey key' _ _ resolved.1 (append_same inside)
        (halts_cons id _) (halts_cons id _)
      obtain ⟨rfl, signed⟩ := lexeme_cons closed
      obtain ⟨rfl, behind⟩ := lexeme_cons signed
      obtain ⟨rfl, rfl⟩ := unique value' rest more resolved.2 behind (halts_field ends)
        (halts_field ends')
      exact ⟨rfl, rfl⟩

theorem separator_kind (separator : Separator) :
    separator.token.kind = .symbol .comma ∨ separator.token.kind = .symbol .semicolon := by
  cases separator with
  | comma => exact Or.inl rfl
  | semicolon => exact Or.inr rfl

theorem separator_cons {first second : Separator} {rest others : List Token}
    (same : first.token :: rest = second.token :: others) : first = second ∧ rest = others := by
  cases first with
  | comma mark =>
      cases second with
      | comma mark' =>
          obtain ⟨rfl, behind⟩ := lexeme_cons same
          exact ⟨rfl, behind⟩
      | semicolon => cases first_kind same
  | semicolon mark =>
      cases second with
      | comma => cases first_kind same
      | semicolon mark' =>
          obtain ⟨rfl, behind⟩ := lexeme_cons same
          exact ⟨rfl, behind⟩

theorem separator_brace {separator : Separator} {right : Mark .rightBrace}
    {rest others : List Token} : separator.token :: rest ≠ right.token :: others := by
  intro same
  cases separator with
  | comma | semicolon => cases first_kind same

theorem lastSeparator_cons {last last' : Option Separator} {right right' : Mark .rightBrace}
    {rest more : List Token}
    (same : lastSeparator last ++ right.token :: rest =
      lastSeparator last' ++ right'.token :: more) : last = last' ∧ right.token :: rest =
      right'.token :: more := by
  cases last with
  | none =>
      cases last' with
      | none => exact ⟨rfl, same⟩
      | some separator => exact absurd same.symm separator_brace
  | some separator =>
      cases last' with
      | none => exact absurd same separator_brace
      | some separator' =>
          obtain ⟨rfl, behind⟩ := separator_cons same
          exact ⟨rfl, behind⟩

theorem field_first (derivation : Derivation .field) (right : Mark .rightBrace)
    (rest more : List Token) : derivation.tokens ++ rest ≠ right.token :: more := by
  intro same
  cases derivation with
  | positional value =>
      obtain ⟨first, others, tokens, starts⟩ := expression_first value
      have same : value.tokens ++ rest = right.token :: more := same
      rw [tokens] at same
      obtain ⟨rfl, _⟩ := List.cons.inj same
      simp [Lexeme.token, StartsOperand, OpensOperand] at starts
  | named | keyed => cases first_kind same

theorem moreFields_ends (others : Derivation .moreFields) {rest : List Token}
    (beyond : Beyond others rest) :
    ∀ token ∈ (others.tokens ++ rest).head?, EndsField token.kind := by
  cases others with
  | noMoreFields =>
      obtain ⟨last, right, more, rfl⟩ := beyond
      cases last with
      | none =>
          rintro _ ⟨⟩
          simp [Lexeme.token, EndsField]
      | some separator =>
          rintro _ ⟨⟩
          rcases separator_kind separator with same | same <;> simp [same, EndsField]
  | moreFields separator next others =>
      rintro _ ⟨⟩
      rcases separator_kind separator with same | same <;> simp [same, EndsField]

/-- A separator in front of the closing brace is not one in front of another field. -/
theorem last_differs {rest more : List Token} {separator : Separator} {next : Derivation .field}
    {others : Derivation .moreFields} (beyond : Beyond .noMoreFields rest) :
    rest ≠ separator.token :: (next.tokens ++ others.tokens) ++ more := by
  obtain ⟨last, right, behind, rfl⟩ := beyond
  intro same
  cases last with
  | none => exact separator_brace same.symm
  | some separator' =>
      obtain ⟨_, same⟩ := separator_cons same
      have same : right.token :: behind = next.tokens ++ others.tokens ++ more := same
      rw [List.append_assoc] at same
      exact field_first next right _ _ same.symm

theorem unique_noMoreFields : Unique .noMoreFields := by
  intro other rest more _ same beyond _
  cases other with
  | noMoreFields => exact unique_of_eq rfl same
  | moreFields separator next others => exact absurd same (last_differs beyond)

theorem unique_moreFields (separator : Separator) {next : Derivation .field}
    {others : Derivation .moreFields} (unique : Unique next) (uniqueOthers : Unique others) :
    Unique (.moreFields separator next others) := by
  intro other rest more resolved same beyond beyond'
  cases other with
  | noMoreFields => exact absurd same.symm (last_differs beyond')
  | moreFields separator' next' others' =>
      obtain ⟨rfl, inside⟩ := separator_cons same
      obtain ⟨rfl, behind⟩ := unique next' _ _ resolved.1 (append_same inside)
        (moreFields_ends others beyond) (moreFields_ends others' beyond')
      obtain ⟨rfl, rfl⟩ := uniqueOthers others' _ _ resolved.2 behind beyond beyond'
      exact ⟨rfl, rfl⟩

theorem unique_noFields : Unique .noFields := by
  intro other rest more _ same beyond _
  cases other with
  | noFields => exact unique_of_eq rfl same
  | fields first others last =>
      obtain ⟨right, behind, rfl⟩ := beyond
      have same : right.token :: behind =
        first.tokens ++ (others.tokens ++ lastSeparator last) ++ more := same
      rw [List.append_assoc] at same
      exact absurd same.symm (field_first first right _ _)

theorem unique_fields {first : Derivation .field} {others : Derivation .moreFields}
    (last : Option Separator) (unique : Unique first) (uniqueOthers : Unique others) :
    Unique (.fields first others last) := by
  intro other rest more resolved same beyond beyond'
  cases other with
  | noFields =>
      obtain ⟨right, behind, rfl⟩ := beyond'
      have same : first.tokens ++ (others.tokens ++ lastSeparator last) ++ rest =
        right.token :: behind := same
      rw [List.append_assoc] at same
      exact absurd same (field_first first right _ _)
  | fields first' others' last' =>
      obtain ⟨right, behind, rfl⟩ := beyond
      obtain ⟨right', behind', rfl⟩ := beyond'
      have inside := append_same same
      rw [List.append_assoc, List.append_assoc] at inside
      have ends : Beyond others (lastSeparator last ++ right.token :: behind) :=
        ⟨last, right, behind, rfl⟩
      have ends' : Beyond others' (lastSeparator last' ++ right'.token :: behind') :=
        ⟨last', right', behind', rfl⟩
      obtain ⟨rfl, separated⟩ := unique first' _ _ resolved.1 inside (moreFields_ends others ends)
        (moreFields_ends others' ends')
      obtain ⟨rfl, closed⟩ := uniqueOthers others' _ _ resolved.2 separated ends ends'
      obtain ⟨rfl, behind⟩ := lastSeparator_cons closed
      exact ⟨rfl, behind⟩

/-! Statements. -/

-- Two tokens are enough to tell the forms of statements apart, except for an assignment and an
-- expression on its own, and for the two kinds of declarations and of loops.
inductive Form where
  | empty
  | declaration
  | function
  | choice
  | loop
  | expression
  deriving DecidableEq

/-- The form of a statement by its first two tokens. -/
def Form.ofTokens : List Token → Form
  | [] => .expression
  | first :: rest =>
      match first.kind with
      | .symbol .semicolon => .empty
      | .keyword .localWord => .declaration
      | .keyword .ifWord => .choice
      | .keyword .forWord => .loop
      | .keyword .functionWord =>
          if rest.head?.map Token.kind = some .name then .function else .expression
      | _ => .expression

def Derivation.form : Derivation .statement → Form
  | empty .. => .empty
  | declare .. | declareAs .. => .declaration
  | function .. => .function
  | choose .. => .choice
  | loop .. | loopBy .. => .loop
  | assign .. | evaluate .. => .expression

theorem startsExpression_form {tokens : List Token} (starts : StartsExpression tokens)
    (rest : List Token) : Form.ofTokens (tokens ++ rest) = .expression := by
  cases starts with
  | operand first others opens =>
      obtain ⟨kind, text, position⟩ := first
      simp only [OpensOperand, List.mem_cons, List.not_mem_nil, or_false] at opens
      rcases opens with rfl | rfl | rfl | rfl | rfl | rfl | rfl | rfl <;> rfl
  | name first others isName _ =>
      obtain ⟨name, rfl⟩ := lexeme_exists isName
      rfl
  | function first second others isFunction isOpening =>
      obtain ⟨word, rfl⟩ := lexeme_exists isFunction
      obtain ⟨mark, rfl⟩ := lexeme_exists isOpening
      rfl

theorem form_tokens (derivation : Derivation .statement) (rest : List Token) :
    Form.ofTokens (derivation.tokens ++ rest) = derivation.form := by
  cases derivation with
  | assign target sign value =>
      have whole : (Derivation.assign target sign value).tokens ++ rest =
          target.tokens ++ (sign.token :: value.tokens ++ rest) := List.append_assoc _ _ _
      rw [whole]
      exact startsExpression_form (begins target).1 _
  | evaluate expression => exact startsExpression_form (begins expression).1 rest
  | empty | declare | declareAs | function | choose | loop | loopBy => rfl

/-- Statements that start with the same tokens have the same form. -/
theorem form_eq {first second : Derivation .statement} {rest more : List Token}
    (same : first.tokens ++ rest = second.tokens ++ more) : first.form = second.form := by
  rw [← form_tokens first rest, ← form_tokens second more, same]

theorem unique_empty (mark : Mark .semicolon) : Unique (.empty mark) := by
  intro other rest more _ same _ _
  have forms := form_eq same
  cases other with
  | empty mark' =>
      obtain ⟨rfl, behind⟩ := lexeme_cons same
      exact ⟨rfl, behind⟩
  | _ => cases forms

theorem unique_declare (word : Word .localWord) (name : Name) : Unique (.declare word name) := by
  intro other rest more _ same beyond _
  have forms := form_eq same
  cases other with
  | declare word' name' =>
      obtain ⟨rfl, named⟩ := lexeme_cons same
      obtain ⟨rfl, behind⟩ := lexeme_cons named
      exact ⟨rfl, behind⟩
  | declareAs word' name' sign value =>
      obtain ⟨rfl, named⟩ := lexeme_cons same
      obtain ⟨rfl, rfl⟩ := lexeme_cons named
      exact absurd rfl (beyond.1 sign.token rfl)
  | _ => cases forms

theorem unique_declareAs (word : Word .localWord) (name : Name) (sign : Mark .assign)
    {value : Derivation .expression} (unique : Unique value) :
    Unique (.declareAs word name sign value) := by
  intro other rest more resolved same beyond beyond'
  have forms := form_eq same
  cases other with
  | declare word' name' =>
      obtain ⟨rfl, named⟩ := lexeme_cons same
      obtain ⟨rfl, rfl⟩ := lexeme_cons named
      exact absurd rfl (beyond'.1 sign.token rfl)
  | declareAs word' name' sign' value' =>
      obtain ⟨rfl, named⟩ := lexeme_cons same
      obtain ⟨rfl, signed⟩ := lexeme_cons named
      obtain ⟨rfl, behind⟩ := lexeme_cons signed
      obtain ⟨rfl, rfl⟩ := unique value' rest more resolved behind (beyond.2 trivial)
        (beyond'.2 trivial)
      exact ⟨rfl, rfl⟩
  | _ => cases forms

theorem unique_function (word : Word .functionWord) (name : Name) (left : Mark .leftParenthesis)
    (parameters : Parameters) (right : Mark .rightParenthesis) {body : Derivation .block}
    (finish : Word .endWord) (unique : Unique body) :
    Unique (.function word name left parameters right body finish) := by
  intro other rest more resolved same _ _
  have forms := form_eq same
  cases other with
  | function word' name' left' parameters' right' body' finish' =>
      obtain ⟨rfl, named⟩ := lexeme_cons same
      obtain ⟨rfl, opened⟩ := lexeme_cons named
      obtain ⟨rfl, inside⟩ := lexeme_cons opened
      obtain ⟨rfl, rfl, rfl, rfl, rfl⟩ := function_unique unique resolved inside
      exact ⟨rfl, rfl⟩
  | _ => cases forms

-- The target of an assignment is as long as an expression there can be, since neither a sign nor
-- the end of a statement continues it.
theorem unique_assign {target : Derivation .expression} (sign : Mark .assign)
    {value : Derivation .expression} (uniqueTarget : Unique target) (unique : Unique value) :
    Unique (.assign target sign value) := by
  intro other rest more resolved same beyond beyond'
  have forms := form_eq same
  cases other with
  | assign target' sign' value' =>
      obtain ⟨rfl, signed⟩ := uniqueTarget target' _ _ resolved.1 (append_same same)
        (halts_cons id _) (halts_cons id _)
      obtain ⟨rfl, behind⟩ := lexeme_cons signed
      obtain ⟨rfl, rfl⟩ := unique value' rest more resolved.2 behind (beyond.2 trivial)
        (beyond'.2 trivial)
      exact ⟨rfl, rfl⟩
  | evaluate expression =>
      have same : target.tokens ++ sign.token :: value.tokens ++ rest =
        expression.tokens ++ more := same
      rw [List.append_assoc] at same
      obtain ⟨rfl, rfl⟩ := uniqueTarget expression _ more resolved same (halts_cons id _)
        (beyond'.2 trivial)
      exact absurd rfl (beyond'.1 sign.token rfl)
  | _ => cases forms

theorem unique_evaluate {expression : Derivation .expression} (unique : Unique expression) :
    Unique (.evaluate expression) := by
  intro other rest more resolved same beyond beyond'
  have forms := form_eq same
  cases other with
  | assign target sign value =>
      have same : expression.tokens ++ rest =
        target.tokens ++ sign.token :: value.tokens ++ more := same
      rw [List.append_assoc] at same
      obtain ⟨rfl, rfl⟩ := unique target rest _ resolved.1 same (beyond.2 trivial)
        (halts_cons id _)
      exact absurd rfl (beyond.1 sign.token rfl)
  | evaluate expression' =>
      obtain ⟨rfl, rfl⟩ := unique expression' rest more resolved same (beyond.2 trivial)
        (beyond'.2 trivial)
      exact ⟨rfl, rfl⟩
  | _ => cases forms

/-- The body of a loop and the word behind it. -/
theorem body_unique {body body' : Derivation .block} {finish finish' : Word .endWord}
    {rest more : List Token} (unique : Unique body) (resolved : body'.Resolved)
    (same : body.tokens ++ [finish.token] ++ rest = body'.tokens ++ [finish'.token] ++ more) :
    body = body' ∧ finish = finish' ∧ rest = more := by
  obtain ⟨rfl, behind⟩ := unique body' _ _ resolved (append_same same)
    (end_beyond_block finish _ _) (end_beyond_block finish' _ _)
  obtain ⟨rfl, rfl⟩ := lexeme_cons behind
  exact ⟨rfl, rfl, rfl⟩

/-- The head of a loop, up to what stands behind the limit. -/
theorem head_unique {word word' : Word .forWord} {counter counter' : Name}
    {sign sign' : Mark .assign} {start start' : Derivation .expression}
    {comma comma' : Mark .comma} {limit limit' : Derivation .expression}
    {tail tail' rest more : List Token} (uniqueStart : Unique start) (uniqueLimit : Unique limit)
    (resolved : start'.Resolved ∧ limit'.Resolved)
    (same : word.token :: counter.token :: sign.token ::
        (start.tokens ++ comma.token :: (limit.tokens ++ tail)) ++ rest =
      word'.token :: counter'.token :: sign'.token ::
        (start'.tokens ++ comma'.token :: (limit'.tokens ++ tail')) ++ more)
    (halts : Halts 0 (tail ++ rest)) (halts' : Halts 0 (tail' ++ more)) :
    (word = word' ∧ counter = counter' ∧ sign = sign') ∧
      start = start' ∧ comma = comma' ∧ limit = limit' ∧ tail ++ rest = tail' ++ more := by
  obtain ⟨rfl, counted⟩ := lexeme_cons same
  obtain ⟨rfl, signed⟩ := lexeme_cons counted
  obtain ⟨rfl, started⟩ := lexeme_cons signed
  obtain ⟨rfl, parted⟩ := uniqueStart start' _ _ resolved.1 (append_same started)
    (halts_cons id _) (halts_cons id _)
  obtain ⟨rfl, limited⟩ := lexeme_cons parted
  obtain ⟨rfl, behind⟩ := uniqueLimit limit' _ _ resolved.2 (append_same limited) halts halts'
  exact ⟨⟨rfl, rfl, rfl⟩, rfl, rfl, rfl, behind⟩

theorem unique_loop (word : Word .forWord) (counter : Name) (sign : Mark .assign)
    {start : Derivation .expression} (comma : Mark .comma) {limit : Derivation .expression}
    (follows : Word .doWord) {body : Derivation .block} (finish : Word .endWord)
    (uniqueStart : Unique start) (uniqueLimit : Unique limit) (unique : Unique body) :
    Unique (.loop word counter sign start comma limit follows body finish) := by
  intro other rest more resolved same _ _
  have forms := form_eq same
  cases other with
  | loop word' counter' sign' start' comma' limit' follows' body' finish' =>
      obtain ⟨⟨rfl, rfl, rfl⟩, rfl, rfl, rfl, followed⟩ := head_unique uniqueStart uniqueLimit
        ⟨resolved.1, resolved.2.1⟩ same (halts_cons id _) (halts_cons id _)
      obtain ⟨rfl, inside⟩ := lexeme_cons followed
      obtain ⟨rfl, rfl, rfl⟩ := body_unique unique resolved.2.2 inside
      exact ⟨rfl, rfl⟩
  | loopBy word' counter' sign' start' comma' limit' second =>
      obtain ⟨_, _, _, _, followed⟩ := head_unique uniqueStart uniqueLimit
        ⟨resolved.1, resolved.2.1⟩ same (halts_cons id _) (halts_cons id _)
      cases first_kind followed
  | _ => cases forms

theorem unique_loopBy (word : Word .forWord) (counter : Name) (sign : Mark .assign)
    {start : Derivation .expression} (comma : Mark .comma) {limit : Derivation .expression}
    (comma' : Mark .comma) {step : Derivation .expression} (follows : Word .doWord)
    {body : Derivation .block} (finish : Word .endWord) (uniqueStart : Unique start)
    (uniqueLimit : Unique limit) (uniqueStep : Unique step) (unique : Unique body) :
    Unique (.loopBy word counter sign start comma limit comma' step follows body finish) := by
  intro other rest more resolved same _ _
  have forms := form_eq same
  cases other with
  | loop word' counter' sign' start' first limit' =>
      obtain ⟨_, _, _, _, followed⟩ := head_unique uniqueStart uniqueLimit
        ⟨resolved.1, resolved.2.1⟩ same (halts_cons id _) (halts_cons id _)
      cases first_kind followed
  | loopBy word' counter' sign' start' first limit' second step' follows' body' finish' =>
      obtain ⟨⟨rfl, rfl, rfl⟩, rfl, rfl, rfl, stepped⟩ := head_unique uniqueStart uniqueLimit
        ⟨resolved.1, resolved.2.1⟩ same (halts_cons id _) (halts_cons id _)
      obtain ⟨rfl, strided⟩ := lexeme_cons stepped
      obtain ⟨rfl, followed⟩ := uniqueStep step' _ _ resolved.2.2.1 (append_same strided)
        (halts_cons id _) (halts_cons id _)
      obtain ⟨rfl, inside⟩ := lexeme_cons followed
      obtain ⟨rfl, rfl, rfl⟩ := body_unique unique resolved.2.2.2 inside
      exact ⟨rfl, rfl⟩
  | _ => cases forms

/-! Branches. -/

theorem branches_beyond (others : Derivation .branches) {rest : List Token}
    (beyond : Beyond others rest) (body : Derivation .block) :
    Beyond body (others.tokens ++ rest) := by
  cases others with
  | noBranches =>
      intro token member
      rcases beyond token member with same | same <;> simp [same, Closes]
  | moreBranches =>
      rintro _ ⟨⟩
      simp [Lexeme.token, Closes]

theorem alternative_beyond (otherwise : Derivation .alternative) (finish : Word .endWord)
    (rest : List Token) (others : Derivation .branches) :
    Beyond others (otherwise.tokens ++ finish.token :: rest) := by
  cases otherwise with
  | noAlternative =>
      rintro _ ⟨⟩
      exact Or.inr rfl
  | alternative =>
      rintro _ ⟨⟩
      exact Or.inl rfl

theorem unique_noBranches : Unique .noBranches := by
  intro other rest more _ same beyond _
  cases other with
  | noBranches => exact unique_of_eq rfl same
  | moreBranches word condition follows body others =>
      have starts : rest = word.token :: (_ ++ more) := same
      subst starts
      rcases beyond word.token rfl with kind | kind <;> cases kind

theorem unique_moreBranches (word : Word .elseifWord) {condition : Derivation .expression}
    (follows : Word .thenWord) {body : Derivation .block} {others : Derivation .branches}
    (uniqueCondition : Unique condition) (unique : Unique body) (uniqueOthers : Unique others) :
    Unique (.moreBranches word condition follows body others) := by
  intro other rest more resolved same beyond beyond'
  cases other with
  | noBranches =>
      have starts : word.token :: (_ ++ rest) = more := same
      subst starts
      rcases beyond' word.token rfl with kind | kind <;> cases kind
  | moreBranches word' condition' follows' body' others' =>
      obtain ⟨rfl, tested⟩ := lexeme_cons same
      obtain ⟨rfl, followed⟩ := uniqueCondition condition' _ _ resolved.1 (append_same tested)
        (halts_cons id _) (halts_cons id _)
      obtain ⟨rfl, inside⟩ := lexeme_cons followed
      obtain ⟨rfl, behind⟩ := unique body' _ _ resolved.2.1 (append_same inside)
        (branches_beyond others beyond body) (branches_beyond others' beyond' body')
      obtain ⟨rfl, rfl⟩ := uniqueOthers others' _ _ resolved.2.2 behind beyond beyond'
      exact ⟨rfl, rfl⟩

theorem unique_noAlternative : Unique .noAlternative := by
  intro other rest more _ same beyond _
  cases other with
  | noAlternative => exact unique_of_eq rfl same
  | alternative word body =>
      have starts : rest = word.token :: (body.tokens ++ more) := same
      subst starts
      cases beyond word.token rfl

theorem unique_alternative (word : Word .elseWord) {body : Derivation .block}
    (unique : Unique body) : Unique (.alternative word body) := by
  intro other rest more resolved same beyond beyond'
  cases other with
  | noAlternative =>
      have starts : word.token :: (body.tokens ++ rest) = more := same
      subst starts
      cases beyond' word.token rfl
  | alternative word' body' =>
      obtain ⟨rfl, inside⟩ := lexeme_cons same
      have closes : ∀ {behind : List Token},
          (∀ token ∈ behind.head?, token.kind = .keyword .endWord) →
          ∀ token ∈ behind.head?, Closes token.kind := by
        intro behind ends token member
        simp [ends token member, Closes]
      obtain ⟨rfl, rfl⟩ := unique body' rest more resolved inside (closes beyond) (closes beyond')
      exact ⟨rfl, rfl⟩

theorem unique_choose (word : Word .ifWord) {condition : Derivation .expression}
    (follows : Word .thenWord) {body : Derivation .block} {others : Derivation .branches}
    {otherwise : Derivation .alternative} (finish : Word .endWord)
    (uniqueCondition : Unique condition) (unique : Unique body) (uniqueOthers : Unique others)
    (uniqueOtherwise : Unique otherwise) :
    Unique (.choose word condition follows body others otherwise finish) := by
  intro other rest more resolved same _ _
  have forms := form_eq same
  cases other with
  | choose word' condition' follows' body' others' otherwise' finish' =>
      obtain ⟨rfl, tested⟩ := lexeme_cons same
      obtain ⟨rfl, followed⟩ := uniqueCondition condition' _ _ resolved.1 (append_same tested)
        (halts_cons id _) (halts_cons id _)
      obtain ⟨rfl, inside⟩ := lexeme_cons followed
      have inside := append_same inside
      simp only [List.append_assoc] at inside
      have beyond := alternative_beyond otherwise finish rest others
      have beyond' := alternative_beyond otherwise' finish' more others'
      obtain ⟨rfl, branched⟩ := unique body' _ _ resolved.2.1 inside
        (branches_beyond others beyond body) (branches_beyond others' beyond' body')
      obtain ⟨rfl, closed⟩ := uniqueOthers others' _ _ resolved.2.2.1 branched beyond beyond'
      obtain ⟨rfl, behind⟩ := uniqueOtherwise otherwise' _ _ resolved.2.2.2 closed
        (by rintro _ ⟨⟩; rfl) (by rintro _ ⟨⟩; rfl)
      obtain ⟨rfl, rfl⟩ := lexeme_cons behind
      exact ⟨rfl, rfl⟩
  | _ => cases forms

/-! Blocks. -/

/-- The kinds of tokens behind the statements of a block. -/
def EndsStatements (kind : Token.Kind) : Prop :=
  Closes kind ∨ kind = .keyword .returnWord

theorem statement_first (derivation : Derivation .statement) :
    ∃ first rest, derivation.tokens = first :: rest ∧ ¬ EndsStatements first.kind := by
  have expression (value : Derivation .expression) :
      ∃ first rest, value.tokens = first :: rest ∧ ¬ EndsStatements first.kind := by
    obtain ⟨first, rest, same, starts⟩ := expression_first value
    refine ⟨first, rest, same, ?_⟩
    simp only [EndsStatements, Closes, List.mem_cons, List.not_mem_nil, or_false]
    rintro ((ends | ends | ends | ends) | ends) <;>
      simp [ends, StartsOperand, OpensOperand] at starts
  cases derivation with
  | assign target sign value =>
      obtain ⟨first, rest, same, starts⟩ := expression target
      exact ⟨first, _, congrArg (· ++ sign.token :: value.tokens) same, starts⟩
  | evaluate value => exact expression value
  | empty word | declare word | declareAs word | function word | choose word | loop word
  | loopBy word =>
      exact ⟨word.token, _, rfl, by simp [Lexeme.token, EndsStatements, Closes]⟩

theorem statement_differs (derivation : Derivation .statement) {tokens others rest : List Token}
    (ends : ∀ token ∈ tokens.head?, EndsStatements token.kind) :
    tokens ≠ derivation.tokens ++ others ++ rest := by
  rintro rfl
  obtain ⟨first, more, same, starts⟩ := statement_first derivation
  rw [same] at ends
  exact starts (ends first rfl)

theorem endsStatements_detached {kind : Token.Kind} (ends : EndsStatements kind) :
    Detached kind := by
  rcases ends with closes | rfl
  · exact closes_detached closes
  · simp [Detached, Continues]

-- This is where a derivation has to be resolved: what starts the next statement must not continue
-- the expression that this one ends with.
theorem statement_beyond {first : Derivation .statement} {others : Derivation .statements}
    (apart : first.EndsInExpression → ∀ token ∈ others.tokens.head?, ¬ IsGlue token.kind)
    {rest : List Token} (ends : ∀ token ∈ rest.head?, EndsStatements token.kind) :
    Beyond first (others.tokens ++ rest) := by
  cases others with
  | noStatements =>
      exact ⟨fun token member => (endsStatements_detached (ends token member)).1,
        fun _ token member => (endsStatements_detached (ends token member)).2⟩
  | moreStatements second others =>
      obtain ⟨head, tail, same, follows⟩ := statement_follows second
      have whole : (Derivation.moreStatements second others).tokens =
          head :: (tail ++ others.tokens) := congrArg (· ++ others.tokens) same
      rw [whole] at apart ⊢
      constructor
      · rintro _ ⟨⟩
        exact follows.1
      · rintro expression _ ⟨⟩ continues
        exact apart expression head rfl (follows.2 continues)

theorem unique_noStatements : Unique .noStatements := by
  intro other rest more _ same ends _
  cases other with
  | noStatements => exact unique_of_eq rfl same
  | moreStatements first others => exact absurd same (statement_differs first ends)

theorem unique_moreStatements {first : Derivation .statement} {others : Derivation .statements}
    (unique : Unique first) (uniqueOthers : Unique others)
    (apart : first.EndsInExpression → ∀ token ∈ others.tokens.head?, ¬ IsGlue token.kind) :
    Unique (.moreStatements first others) := by
  intro other rest more resolved same ends ends'
  cases other with
  | noStatements => exact absurd same.symm (statement_differs first ends')
  | moreStatements first' others' =>
      obtain ⟨rfl, behind⟩ := unique first' _ _ resolved.1 (append_same same)
        (statement_beyond apart ends) (statement_beyond resolved.2.2 ends')
      obtain ⟨rfl, rfl⟩ := uniqueOthers others' _ _ resolved.2.1 behind ends ends'
      exact ⟨rfl, rfl⟩

theorem return_closes (word : Word .returnWord) : ¬ Closes word.token.kind := by
  simp [Lexeme.token, Closes]

theorem unique_noReturn : Unique .noReturn := by
  intro other rest more _ same closes _
  cases other with
  | noReturn => exact unique_of_eq rfl same
  | returnsNothing word stop =>
      have starts : rest = word.token :: (optionalTokens stop ++ more) := same
      subst starts
      exact absurd (closes word.token rfl) (return_closes word)
  | returns word value stop =>
      have starts : rest = word.token :: (value.tokens ++ optionalTokens stop ++ more) := same
      subst starts
      exact absurd (closes word.token rfl) (return_closes word)

theorem stop_unique {stop stop' : Option (Mark .semicolon)} {rest more : List Token}
    (same : optionalTokens stop ++ rest = optionalTokens stop' ++ more)
    (closes : ∀ token ∈ rest.head?, Closes token.kind)
    (closes' : ∀ token ∈ more.head?, Closes token.kind) : stop = stop' ∧ rest = more := by
  have apart (mark : Mark .semicolon) : ¬ Closes mark.token.kind := by simp [Lexeme.token, Closes]
  cases stop with
  | none =>
      cases stop' with
      | none => exact ⟨rfl, same⟩
      | some mark =>
          have starts : rest = mark.token :: more := same
          subst starts
          exact absurd (closes mark.token rfl) (apart mark)
  | some mark =>
      cases stop' with
      | none =>
          have starts : mark.token :: rest = more := same
          subst starts
          exact absurd (closes' mark.token rfl) (apart mark)
      | some mark' =>
          obtain ⟨rfl, behind⟩ := lexeme_cons same
          exact ⟨rfl, behind⟩

/-- Behind the value of a `return`, or where it would stand. -/
theorem stop_starts (stop : Option (Mark .semicolon)) {rest : List Token}
    (closes : ∀ token ∈ rest.head?, Closes token.kind) :
    ∀ token ∈ (optionalTokens stop ++ rest).head?,
      ¬ StartsOperand token.kind ∧ ¬ Continues 0 token.kind := by
  cases stop with
  | none =>
      intro token member
      have ends := closes token member
      refine ⟨?_, (closes_detached ends).2⟩
      simp only [Closes, List.mem_cons, List.not_mem_nil, or_false] at ends
      rcases ends with ends | ends | ends | ends <;> simp [ends, StartsOperand, OpensOperand]
  | some mark =>
      rintro _ ⟨⟩
      exact ⟨by simp [Lexeme.token, StartsOperand, OpensOperand], id⟩

theorem unique_returnsNothing (word : Word .returnWord) (stop : Option (Mark .semicolon)) :
    Unique (.returnsNothing word stop) := by
  intro other rest more _ same closes closes'
  cases other with
  | noReturn =>
      have starts : word.token :: (optionalTokens stop ++ rest) = more := same
      subst starts
      exact absurd (closes' word.token rfl) (return_closes word)
  | returnsNothing word' stop' =>
      obtain ⟨rfl, behind⟩ := lexeme_cons same
      obtain ⟨rfl, rfl⟩ := stop_unique behind closes closes'
      exact ⟨rfl, rfl⟩
  | returns word' value stop' =>
      obtain ⟨rfl, behind⟩ := lexeme_cons same
      exact absurd behind (expression_differs value
        fun token member => (stop_starts stop closes token member).1)

theorem unique_returns (word : Word .returnWord) {value : Derivation .expression}
    (stop : Option (Mark .semicolon)) (unique : Unique value) :
    Unique (.returns word value stop) := by
  intro other rest more resolved same closes closes'
  cases other with
  | noReturn =>
      have starts : word.token :: (value.tokens ++ optionalTokens stop ++ rest) = more := same
      subst starts
      exact absurd (closes' word.token rfl) (return_closes word)
  | returnsNothing word' stop' =>
      obtain ⟨rfl, behind⟩ := lexeme_cons same
      exact absurd behind.symm (expression_differs value
        fun token member => (stop_starts stop' closes' token member).1)
  | returns word' value' stop' =>
      obtain ⟨rfl, inside⟩ := lexeme_cons same
      obtain ⟨rfl, behind⟩ := unique value' _ _ resolved (append_same inside)
        (fun token member => (stop_starts stop closes token member).2)
        (fun token member => (stop_starts stop' closes' token member).2)
      obtain ⟨rfl, rfl⟩ := stop_unique behind closes closes'
      exact ⟨rfl, rfl⟩

theorem closing_ends (closing : Derivation .closing) {rest : List Token}
    (closes : ∀ token ∈ rest.head?, Closes token.kind) :
    ∀ token ∈ (closing.tokens ++ rest).head?, EndsStatements token.kind := by
  cases closing with
  | noReturn => exact fun token member => Or.inl (closes token member)
  | returnsNothing | returns =>
      rintro _ ⟨⟩
      exact Or.inr rfl

theorem unique_block {statements : Derivation .statements} {closing : Derivation .closing}
    (unique : Unique statements) (uniqueClosing : Unique closing) :
    Unique (.block statements closing) := by
  intro other rest more resolved same closes closes'
  cases other with
  | block statements' closing' =>
      obtain ⟨rfl, behind⟩ := unique statements' _ _ resolved.1 (append_same same)
        (closing_ends closing closes) (closing_ends closing' closes')
      obtain ⟨rfl, rfl⟩ := uniqueClosing closing' _ _ resolved.2 behind closes closes'
      exact ⟨rfl, rfl⟩

/-- Every phrase of a resolved derivation is determined by its tokens. -/
theorem determined {category : Category} (derivation : Derivation category)
    (resolved : derivation.Resolved) : Determined derivation := by
  induction derivation with
  | block _ _ ih ih' =>
      exact unique_block (ih resolved.1) (ih' resolved.2)
  | noStatements => exact unique_noStatements
  | moreStatements _ _ ih ih' =>
      exact unique_moreStatements (ih resolved.1) (ih' resolved.2.1) resolved.2.2
  | noReturn => exact unique_noReturn
  | returnsNothing word stop => exact unique_returnsNothing word stop
  | returns word _ stop ih =>
      exact unique_returns word stop (determined_unique (ih resolved))
  | empty mark => exact unique_empty mark
  | declare word name => exact unique_declare word name
  | declareAs word name sign _ ih =>
      exact unique_declareAs word name sign (determined_unique (ih resolved))
  | function word name left parameters right _ finish ih =>
      exact unique_function word name left parameters right finish (ih resolved)
  | choose word _ follows _ _ _ finish ih ihBody ihOthers ihOtherwise =>
      exact unique_choose word follows finish (determined_unique (ih resolved.1))
        (ihBody resolved.2.1) (ihOthers resolved.2.2.1) (ihOtherwise resolved.2.2.2)
  | loop word counter sign _ comma _ follows _ finish ih ihLimit ihBody =>
      exact unique_loop word counter sign comma follows finish (determined_unique (ih resolved.1))
        (determined_unique (ihLimit resolved.2.1)) (ihBody resolved.2.2)
  | loopBy word counter sign _ comma _ comma' _ follows _ finish ih ihLimit ihStep ihBody =>
      exact unique_loopBy word counter sign comma comma' follows finish
        (determined_unique (ih resolved.1)) (determined_unique (ihLimit resolved.2.1))
        (determined_unique (ihStep resolved.2.2.1)) (ihBody resolved.2.2.2)
  | assign _ sign _ ih ih' =>
      exact unique_assign sign (determined_unique (ih resolved.1))
        (determined_unique (ih' resolved.2))
  | evaluate _ ih => exact unique_evaluate (determined_unique (ih resolved))
  | noBranches => exact unique_noBranches
  | moreBranches word _ follows _ _ ih ihBody ihOthers =>
      exact unique_moreBranches word follows (determined_unique (ih resolved.1))
        (ihBody resolved.2.1) (ihOthers resolved.2.2)
  | noAlternative => exact unique_noAlternative
  | alternative word _ ih => exact unique_alternative word (ih resolved)
  | noArguments => exact unique_noArguments
  | arguments _ _ ih ih' =>
      exact unique_arguments (determined_unique (ih resolved.1)) (ih' resolved.2)
  | noMoreArguments => exact unique_noMoreArguments
  | moreArguments comma _ _ ih ih' =>
      exact unique_moreArguments comma (determined_unique (ih resolved.1)) (ih' resolved.2)
  | noFields => exact unique_noFields
  | fields _ _ last ih ih' => exact unique_fields last (ih resolved.1) (ih' resolved.2)
  | noMoreFields => exact unique_noMoreFields
  | moreFields separator _ _ ih ih' =>
      exact unique_moreFields separator (ih resolved.1) (ih' resolved.2)
  | positional _ ih => exact unique_positional (determined_unique (ih resolved))
  | named name sign _ ih => exact unique_named name sign (determined_unique (ih resolved))
  | keyed left _ right sign _ ih ih' =>
      exact unique_keyed left right sign (determined_unique (ih resolved.1))
        (determined_unique (ih' resolved.2))
  | operand bound _ ih => exact determined_operand bound (determined_unique (ih resolved))
  | binary _ _ fits mark _ ih ih' =>
      exact determined_binary fits mark (ih resolved.1) (determined_unique (ih' resolved.2))
  | negate mark _ ih => exact determined_negate mark (ih resolved)
  | dot _ mark name ih => exact determined_dot mark name (ih resolved)
  | index _ left _ right ih ih' =>
      exact determined_index left right (ih resolved.1) (determined_unique (ih' resolved.2))
  | call _ left _ right ih ih' =>
      exact determined_call left right (ih resolved.1) (ih' resolved.2)
  | table left _ right ih => exact determined_table left right (ih resolved)
  | literal word left parameters right _ finish ih =>
      exact determined_literal word left parameters right finish (ih resolved)
  | parentheses left _ right ih =>
      exact determined_parentheses left right (determined_unique (ih resolved))
  -- Single tokens: the other phrase starts with a token of the same kind, and is that token.
  | number | string | truth | falsehood | nil | reference =>
      intro other rest more _ same _ _
      cases other with
      | operand bound => omega
      | binary _ operation fits => exact absurd fits (level_ne_five operation)
      | table | literal | parentheses => cases first_kind same
      | number | string | truth | falsehood | nil | reference =>
          first
          | obtain ⟨rfl, _⟩ := lexeme_cons same
            exact grows_alone rfl
          | cases first_kind same

/-- Two resolved derivations of the same tokens are the same. -/
theorem derivation_unique (first second : Derivation .block) (resolved : first.Resolved)
    (resolved' : second.Resolved) (same : first.tokens = second.tokens) : first = second := by
  have unique : Unique first := determined first resolved
  exact (unique second [] [] resolved' (congrArg (· ++ []) same) (by simp [Beyond])
    (by simp [Beyond])).1

end LuaCore.Tree.Grammar
