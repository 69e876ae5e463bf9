import LuaCore.Proofs.Grammar

/-!
What phrases can start with, and what can stand behind them. A token continues an expression of a
level if it is an operator of that level or above, or a mark of a chain; the tokens behind a
complete statement are those that no expression needs.
-/

namespace LuaCore.Tree.Grammar

/-- The first tokens of an expression, but for names and functions. -/
def OpensOperand (kind : Token.Kind) : Prop :=
  kind ∈ [.number, .string, .keyword .trueWord, .keyword .falseWord, .keyword .nilWord,
    .symbol (.operator .subtract), .symbol .leftParenthesis, .symbol .leftBrace]

/-- How an expression starts. A name in front of an assignment sign is none, as it could name a
field; a function without its parenthesis is none, as it could be a declaration. -/
inductive StartsExpression : List Token → Prop where
  | operand (first : Token) (rest : List Token) (opens : OpensOperand first.kind) :
      StartsExpression (first :: rest)
  | name (first : Token) (rest : List Token) (isName : first.kind = .name)
      (behind : ∀ next ∈ rest.head?, next.kind ≠ .symbol .assign) :
      StartsExpression (first :: rest)
  | function (first second : Token) (rest : List Token)
      (isFunction : first.kind = .keyword .functionWord)
      (isOpening : second.kind = .symbol .leftParenthesis) :
      StartsExpression (first :: second :: rest)

/-- The tokens that continue an expression of at least a level. -/
def Continues (level : Nat) : Token.Kind → Prop
  | .symbol .dot | .symbol .leftBracket | .symbol .leftParenthesis => level ≤ 4
  | .symbol (.operator operation) => level ≤ operation.level
  | _ => False

/-- The tokens that a block ends in front of. -/
def Closes (kind : Token.Kind) : Prop :=
  kind ∈ [.keyword .endWord, .keyword .elseWord, .keyword .elseifWord, .finish]

/-- The tokens that a field of a table ends in front of. -/
def EndsField (kind : Token.Kind) : Prop :=
  kind ∈ [.symbol .comma, .symbol .semicolon, .symbol .rightBrace]

/-- The tokens that cannot belong to a statement in front of them. -/
def Detached (kind : Token.Kind) : Prop :=
  kind ≠ .symbol .assign ∧ ¬ Continues 0 kind

/-- The tokens that can belong to the next statement or to the end of the block. -/
def Follows (kind : Token.Kind) : Prop :=
  kind ≠ .symbol .assign ∧ (Continues 0 kind → IsGlue kind)

theorem level_le_two (operation : Operation) : operation.level ≤ 2 := by
  cases operation <;> decide

theorem continues_mono {low high : Nat} (le : low ≤ high) {kind : Token.Kind}
    (continues : Continues high kind) : Continues low kind := by
  unfold Continues at continues ⊢
  split at continues
  · exact Nat.le_trans le continues
  · exact Nat.le_trans le continues
  · exact Nat.le_trans le continues
  · exact Nat.le_trans le continues
  · exact continues.elim

theorem closes_detached {kind : Token.Kind} (closes : Closes kind) : Detached kind := by
  simp only [Closes, List.mem_cons, List.not_mem_nil, or_false] at closes
  rcases closes with rfl | rfl | rfl | rfl <;> simp [Detached, Continues]

theorem endsField_detached {kind : Token.Kind} (ends : EndsField kind) : Detached kind := by
  simp only [EndsField, List.mem_cons, List.not_mem_nil, or_false] at ends
  rcases ends with rfl | rfl | rfl <;> simp [Detached, Continues]

theorem opensOperand_follows {kind : Token.Kind} (opens : OpensOperand kind) : Follows kind := by
  simp only [OpensOperand, List.mem_cons, List.not_mem_nil, or_false] at opens
  rcases opens with rfl | rfl | rfl | rfl | rfl | rfl | rfl | rfl <;>
    simp [Follows, Continues, IsGlue]

theorem startsExpression_follows {tokens : List Token} (starts : StartsExpression tokens) :
    ∃ first rest, tokens = first :: rest ∧ Follows first.kind := by
  cases starts with
  | operand first rest opens => exact ⟨first, rest, rfl, opensOperand_follows opens⟩
  | name first rest isName _ =>
      exact ⟨first, rest, rfl, by simp [isName, Follows, Continues]⟩
  | function first second rest isFunction _ =>
      exact ⟨first, second :: rest, rfl, by simp [isFunction, Follows, Continues]⟩

theorem startsExpression_append {tokens : List Token} (starts : StartsExpression tokens)
    (more : List Token) (behind : ∀ next ∈ more.head?, next.kind ≠ .symbol .assign) :
    StartsExpression (tokens ++ more) := by
  cases starts with
  | operand first rest opens => exact .operand first (rest ++ more) opens
  | function first second rest isFunction isOpening =>
      exact .function first second (rest ++ more) isFunction isOpening
  | name first rest isName inside =>
      refine .name first (rest ++ more) isName ?_
      cases rest with
      | nil => exact behind
      | cons second rest => exact inside

/-- What a derivation of an expression starts with, above the negations without a minus sign. -/
def Begins : Category → List Token → Prop
  | .level level, tokens =>
      StartsExpression tokens ∧
        (4 ≤ level → ∀ first ∈ tokens.head?, first.kind ≠ .symbol (.operator .subtract))
  | _, _ => True

theorem begins_append {level : Nat} {tokens : List Token} (begins : Begins (.level level) tokens)
    (next : Token) (rest : List Token) (behind : next.kind ≠ .symbol .assign) :
    Begins (.level level) (tokens ++ next :: rest) := by
  refine ⟨startsExpression_append begins.1 (next :: rest) ?_, ?_⟩
  · intro token member
    cases member
    exact behind
  · intro above
    obtain ⟨head, tail, same, _⟩ := startsExpression_follows begins.1
    have noMinus := begins.2 above
    rw [same] at noMinus ⊢
    exact noMinus

/-- A token that starts an expression by itself, and is no minus sign. -/
theorem begins_operand {level : Nat} (first : Token) (rest : List Token)
    (opens : OpensOperand first.kind) (noMinus : first.kind ≠ .symbol (.operator .subtract)) :
    Begins (.level level) (first :: rest) := by
  refine ⟨.operand first rest opens, fun _ token member => ?_⟩
  cases member
  exact noMinus

theorem begins {category : Category} (derivation : Derivation category) :
    Begins category derivation.tokens := by
  induction derivation with
  | operand bound inner ih => exact ⟨ih.1, fun above => ih.2 (by omega)⟩
  | binary lhs operation fits mark rhs ih _ =>
      exact begins_append ih mark.token rhs.tokens (by simp [Lexeme.token])
  | negate mark inner _ =>
      exact ⟨.operand mark.token inner.tokens (by simp [Lexeme.token, OpensOperand]),
        fun above => by omega⟩
  | dot target mark name ih =>
      exact begins_append ih mark.token [name.token] (by simp [Lexeme.token])
  | index target left key right ih _ =>
      exact begins_append ih left.token (key.tokens ++ [right.token]) (by simp [Lexeme.token])
  | call callee left values right ih _ =>
      exact begins_append ih left.token (values.tokens ++ [right.token]) (by simp [Lexeme.token])
  | reference name =>
      refine ⟨.name name.token [] rfl (by simp), fun _ token member => ?_⟩
      cases member
      simp [Lexeme.token]
  | literal word left parameters right body finish _ =>
      refine ⟨.function word.token left.token _ rfl rfl, fun _ token member => ?_⟩
      cases member
      simp [Lexeme.token]
  | number lexeme | string lexeme | truth lexeme | falsehood lexeme | nil lexeme
  | table lexeme | parentheses lexeme =>
      exact begins_operand lexeme.token _ (by simp [Lexeme.token, OpensOperand])
        (by simp [Lexeme.token])
  | _ => trivial

theorem statement_follows (derivation : Derivation .statement) :
    ∃ first rest, derivation.tokens = first :: rest ∧ Follows first.kind := by
  cases derivation with
  | assign target sign value =>
      obtain ⟨first, rest, same, follows⟩ := startsExpression_follows (begins target).1
      exact ⟨first, rest ++ sign.token :: value.tokens,
        congrArg (· ++ sign.token :: value.tokens) same, follows⟩
  | evaluate expression => exact startsExpression_follows (begins expression).1
  | empty word | declare word | declareAs word | function word | choose word | loop word
  | loopBy word =>
      exact ⟨word.token, _, rfl, by simp [Lexeme.token, Follows, Continues]⟩

end LuaCore.Tree.Grammar
