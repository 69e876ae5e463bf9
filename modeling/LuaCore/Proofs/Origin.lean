import LuaCore.Proofs.Reading

/-!
The reader reads nothing but what the grammar derives. Every state that it can reach has an origin:
the tokens read so far, divided into the phrases that are complete and what surrounds them.
-/

namespace LuaCore.Tree.Grammar

open Reader

/-- The tokens and the tree of a resolved derivation. -/
def Derives (category : Category) (tokens : List Token) (tree : category.Result) : Prop :=
  ∃ derivation : Derivation category,
    derivation.Resolved ∧ derivation.tokens = tokens ∧ derivation.tree = tree

/-! The parts of a phrase that are complete. Their trees are kept backwards, as a reader does. -/

/-- Statements in front of the next one, and whether the last of them ends with an expression. -/
inductive Listed : Block → List Token → Prop → Prop where
  | nil : Listed [] [] False
  | snoc (listed : Listed before tokens sticky) (next : Derivation .statement)
      (resolved : next.Resolved)
      (apart : sticky → ∀ token ∈ next.tokens.head?, ¬ IsGlue token.kind) :
      Listed (next.tree.reverse ++ before) (tokens ++ next.tokens) next.EndsInExpression

/-- Arguments of a call, each with the comma behind it. -/
inductive Given : List Expression → List Token → Prop where
  | nil : Given [] []
  | snoc (given : Given earlier tokens) (value : Derives .expression argument tree)
      (comma : Mark .comma) : Given (tree :: earlier) (tokens ++ (argument ++ [comma.token]))

/-- Fields of a table, each with the separator behind it. -/
inductive Entered : List Field → List Token → Prop where
  | nil : Entered [] []
  | snoc (entered : Entered earlier tokens) (field : Derives .field entry tree)
      (separator : Separator) : Entered (tree :: earlier) (tokens ++ (entry ++ [separator.token]))

/-- Branches of a choice, from its first word to the word in front of the next condition. -/
inductive Guarded : Branches → List Token → Prop where
  | first (word : Word .ifWord) : Guarded none [word.token]
  | more (guarded : Guarded earlier tokens) (derivesCondition : Derives .expression test condition)
      (follows : Word .thenWord) (derivesBody : Derives .block block body)
      (word : Word .elseifWord) :
      Guarded (some (earlier.extend (.mk condition body)))
        (tokens ++ (test ++ follows.token :: (block ++ [word.token])))

/-- Pending operators, each with its left operand. -/
inductive Waiting : List Pending → List Token → Prop where
  | nil : Waiting [] []
  | negate (waiting : Waiting pending tokens) (mark : Mark (.operator .subtract)) :
      Waiting (.negate :: pending) (tokens ++ [mark.token])
  | binary (waiting : Waiting pending tokens) (fits : Fits operation.level pending)
      (derivesLhs : Derives (.level operation.level) operand lhs)
      (mark : Mark (.operator operation)) :
      Waiting (.binary lhs operation :: pending) (tokens ++ (operand ++ [mark.token]))

/-! The tokens in front of a place, by what surrounds it there. -/

mutual

/-- The tokens in front of a block. -/
inductive Around : Context .block → List Token → Prop where
  | chunk : Around .chunk []
  | declaration (headed : Headed (.declaration name before outer) tokens)
      (left : Mark .leftParenthesis) (parameters : Parameters) (right : Mark .rightParenthesis) :
      Around (.declaration name parameters.names before outer)
        (tokens ++ left.token :: (parameters.tokens ++ [right.token]))
  | literal (headed : Headed (.literal pending outer) tokens)
      (left : Mark .leftParenthesis) (parameters : Parameters) (right : Mark .rightParenthesis) :
      Around (.literal parameters.names pending outer)
        (tokens ++ left.token :: (parameters.tokens ++ [right.token]))
  | branch (within : Within (.condition earlier before outer) tokens test)
      (derivesCondition : Derives .expression test condition) (follows : Word .thenWord) :
      Around (.branch earlier condition before outer) (tokens ++ (test ++ [follows.token]))
  | otherwise (around : Around (.branch earlier condition before outer) tokens)
      (derivesBody : Derives .block block body) (word : Word .elseWord) :
      Around (.otherwise (earlier.extend (.mk condition body)).1
        (earlier.extend (.mk condition body)).2 before outer) (tokens ++ (block ++ [word.token]))
  | rounds (within : Within (.loopLimit counter initial before outer) tokens bound)
      (derivesLimit : Derives .expression bound limit) (follows : Word .doWord) :
      Around (.rounds counter initial limit none before outer)
        (tokens ++ (bound ++ [follows.token]))
  | roundsBy (within : Within (.loopStep counter initial limit before outer) tokens stride)
      (derivesStep : Derives .expression stride step) (follows : Word .doWord) :
      Around (.rounds counter initial limit (some step) before outer)
        (tokens ++ (stride ++ [follows.token]))

/-- The tokens in front of a statement that starts with a token of a certain kind. -/
inductive Stands : Block → Context .block → List Token → Token.Kind → Prop where
  | intro (around : Around outer tokens) (listed : Listed before statements sticky)
      (apart : sticky → ¬ IsGlue kind) : Stands before outer (tokens ++ statements) kind

/-- The tokens in front of the parameters of a function. -/
inductive Headed : Header → List Token → Prop where
  | declaration (stands : Stands before outer tokens (.keyword .functionWord))
      (word : Word .functionWord) (name : Name) :
      Headed (.declaration name.text before outer) (tokens ++ [word.token, name.token])
  | literal (word : Word .functionWord) (facing : Facing pending outer tokens word.token) :
      Headed (.literal pending outer) (tokens ++ [word.token])

/-- The tokens in front of an expression that starts with some others. How it starts matters
only where it starts a statement. -/
inductive Within : Context .expression → List Token → List Token → Prop where
  | evaluated (first : Token) (stands : Stands before outer tokens first.kind)
      (rest : List Token) : Within (.evaluated first.position before outer) tokens (first :: rest)
  | assigned (within : Within (.evaluated position before outer) tokens place)
      (derivesTarget : Derives .expression place target) (sign : Mark .assign)
      (inside : List Token) :
      Within (.assigned position target before outer) (tokens ++ (place ++ [sign.token])) inside
  | declared (stands : Stands before outer tokens (.keyword .localWord)) (word : Word .localWord)
      (name : Name) (sign : Mark .assign) (inside : List Token) :
      Within (.declared name.text before outer) (tokens ++ [word.token, name.token, sign.token])
        inside
  | returned (stands : Stands before outer tokens (.keyword .returnWord))
      (word : Word .returnWord) (inside : List Token) :
      Within (.returned before outer) (tokens ++ [word.token]) inside
  | condition (stands : Stands before outer tokens (.keyword .ifWord))
      (guarded : Guarded earlier branches) (inside : List Token) :
      Within (.condition earlier before outer) (tokens ++ branches) inside
  | loopStart (stands : Stands before outer tokens (.keyword .forWord)) (word : Word .forWord)
      (counter : Name) (sign : Mark .assign) (inside : List Token) :
      Within (.loopStart counter.text before outer)
        (tokens ++ [word.token, counter.token, sign.token]) inside
  | loopLimit (within : Within (.loopStart counter before outer) tokens first)
      (derivesInitial : Derives .expression first initial) (comma : Mark .comma)
      (inside : List Token) :
      Within (.loopLimit counter initial before outer) (tokens ++ (first ++ [comma.token])) inside
  | loopStep (within : Within (.loopLimit counter initial before outer) tokens bound)
      (derivesLimit : Derives .expression bound limit) (comma : Mark .comma)
      (inside : List Token) :
      Within (.loopStep counter initial limit before outer) (tokens ++ (bound ++ [comma.token]))
        inside
  | parentheses (left : Mark .leftParenthesis) (facing : Facing pending outer tokens left.token)
      (inside : List Token) : Within (.parentheses pending outer) (tokens ++ [left.token]) inside
  | key (behind : Behind target pending outer tokens) (left : Mark .leftBracket)
      (inside : List Token) : Within (.key target pending outer) (tokens ++ [left.token]) inside
  | argument (behind : Behind callee pending outer tokens) (left : Mark .leftParenthesis)
      (given : Given earlier arguments) (inside : List Token) :
      Within (.argument callee earlier pending outer) (tokens ++ left.token :: arguments) inside
  | positional (tabled : Tabled earlier pending outer tokens) (inside : List Token) :
      Within (.positional earlier pending outer) tokens inside
  | named (tabled : Tabled earlier pending outer tokens) (name : Name) (sign : Mark .assign)
      (inside : List Token) :
      Within (.named earlier name.text pending outer) (tokens ++ [name.token, sign.token]) inside
  | fieldKey (tabled : Tabled earlier pending outer tokens) (left : Mark .leftBracket)
      (inside : List Token) :
      Within (.fieldKey earlier pending outer) (tokens ++ [left.token]) inside
  | keyed (within : Within (.fieldKey earlier pending outer) tokens bracketed)
      (derivesKey : Derives .expression bracketed key) (right : Mark .rightBracket)
      (sign : Mark .assign) (inside : List Token) :
      Within (.keyed earlier key pending outer)
        (tokens ++ (bracketed ++ [right.token, sign.token])) inside

/-- The tokens in front of an operand that starts with a certain token. -/
inductive Facing : List Pending → Context .expression → List Token → Token → Prop where
  | intro (within : Within outer tokens (operators ++ [token]))
      (waiting : Waiting pending operators) : Facing pending outer (tokens ++ operators) token

/-- The tokens up to the end of an operand. -/
inductive Behind : Expression → List Pending → Context .expression → List Token → Prop where
  | intro (within : Within outer tokens (operators ++ last))
      (waiting : Waiting pending operators) (derivesOperand : Derives (.level 4) last operand) :
      Behind operand pending outer (tokens ++ (operators ++ last))

/-- The tokens in front of a field of a table. -/
inductive Tabled : List Field → List Pending → Context .expression → List Token → Prop where
  | intro (left : Mark .leftBrace) (facing : Facing pending outer tokens left.token)
      (entered : Entered earlier fields) :
      Tabled earlier pending outer (tokens ++ left.token :: fields)

end

/-- The tokens that lead to a state. -/
inductive Origin : State → List Token → Prop where
  | statement (stands : ∀ kind, Stands before outer tokens kind) :
      Origin (.statement before outer) tokens
  | returning (stands : Stands before outer tokens (.keyword .returnWord))
      (word : Word .returnWord) : Origin (.returning before outer) (tokens ++ [word.token])
  | closing (around : Around outer tokens) (derivesBody : Derives .block block before.reverse) :
      Origin (.closing before outer) (tokens ++ block)
  | declaring (stands : Stands before outer tokens (.keyword .localWord)) (word : Word .localWord) :
      Origin (.declaring before outer) (tokens ++ [word.token])
  | declared (stands : Stands before outer tokens (.keyword .localWord)) (word : Word .localWord)
      (name : Name) : Origin (.declared name.text before outer) (tokens ++ [word.token, name.token])
  | function (stands : Stands before outer tokens (.keyword .functionWord))
      (word : Word .functionWord) :
      Origin (.function word.position before outer) (tokens ++ [word.token])
  | counting (stands : Stands before outer tokens (.keyword .forWord)) (word : Word .forWord) :
      Origin (.counting before outer) (tokens ++ [word.token])
  | counter (stands : Stands before outer tokens (.keyword .forWord)) (word : Word .forWord)
      (name : Name) : Origin (.counter name.text before outer) (tokens ++ [word.token, name.token])
  | header (headed : Headed header tokens) : Origin (.header header) tokens
  | opened (headed : Headed header tokens) (left : Mark .leftParenthesis) :
      Origin (.opened header) (tokens ++ [left.token])
  | parameter (headed : Headed header tokens) (left : Mark .leftParenthesis) (first : Name)
      (others : List (Mark .comma × Name)) :
      Origin (.parameter header (Parameters.some first others).names.reverse)
        (tokens ++ left.token :: (Parameters.some first others).tokens)
  | further (headed : Headed header tokens) (left : Mark .leftParenthesis) (first : Name)
      (others : List (Mark .comma × Name)) (comma : Mark .comma) :
      Origin (.further header (Parameters.some first others).names.reverse)
        (tokens ++ left.token :: ((Parameters.some first others).tokens ++ [comma.token]))
  | operand (facing : ∀ token, Facing pending outer tokens token) :
      Origin (.operand pending outer) tokens
  | operator (behind : Behind operand pending outer tokens) :
      Origin (.operator operand pending outer) tokens
  | member (behind : Behind target pending outer tokens) (mark : Mark .dot) :
      Origin (.member target pending outer) (tokens ++ [mark.token])
  | arguments (behind : Behind callee pending outer tokens) (left : Mark .leftParenthesis) :
      Origin (.arguments callee pending outer) (tokens ++ [left.token])
  | field (tabled : Tabled earlier pending outer tokens) :
      Origin (.field earlier pending outer) tokens
  | fieldName (tabled : Tabled earlier pending outer tokens) (name : Name) :
      Origin (.fieldName earlier name.text pending outer) (tokens ++ [name.token])
  | fieldKey (within : Within (.fieldKey earlier pending outer) tokens bracketed)
      (derivesKey : Derives .expression bracketed key) (right : Mark .rightBracket) :
      Origin (.fieldKey earlier key pending outer) (tokens ++ (bracketed ++ [right.token]))
  | accepted (derivesBlock : Derives .block tokens program) (finish : Lexeme .finish) :
      Origin (.accepted program) (tokens ++ [finish.token])

/-! The end of a part. -/

theorem listed_statements (listed : Listed before tokens sticky)
    (more : Derivation .statements) (resolved : more.Resolved)
    (apart : sticky → ∀ token ∈ more.tokens.head?, ¬ IsGlue token.kind) :
    Derives .statements (tokens ++ more.tokens) (before.reverse ++ more.tree) := by
  induction listed generalizing more with
  | nil => exact ⟨more, resolved, rfl, rfl⟩
  | @snoc before tokens sticky listed next resolvedNext apartNext ih =>
      have first : sticky → ∀ token ∈ (Derivation.moreStatements next more).tokens.head?,
          ¬ IsGlue token.kind := by
        obtain ⟨head, tail, same, _⟩ := statement_follows next
        change sticky → ∀ token ∈ (next.tokens ++ more.tokens).head?, _
        rw [same] at apartNext ⊢
        exact apartNext
      have whole := ih (.moreStatements next more) ⟨resolvedNext, resolved, apart⟩ first
      rw [List.reverse_append, List.reverse_reverse, List.append_assoc, List.append_assoc]
      exact whole

theorem listed_block (listed : Listed before tokens sticky) (closing : Derivation .closing)
    (resolved : closing.Resolved) :
    Derives .block (tokens ++ closing.tokens) (before.reverse ++ closing.tree) := by
  obtain ⟨statements, resolvedStatements, sameTokens, sameTree⟩ :=
    listed_statements listed .noStatements trivial (by rintro - token ⟨⟩)
  refine ⟨.block statements closing, ⟨resolvedStatements, resolved⟩, ?_, ?_⟩
  · change statements.tokens ++ closing.tokens = _
    rw [sameTokens]
    exact congrArg (· ++ closing.tokens) (List.append_nil tokens)
  · change statements.tree ++ closing.tree = _
    rw [sameTree]
    exact congrArg (· ++ closing.tree) (List.append_nil before.reverse)

theorem given_arguments (given : Given earlier tokens) (value : Derives .expression argument tree)
    (more : Derivation .moreArguments) (resolved : more.Resolved) :
    Derives .arguments (tokens ++ (argument ++ more.tokens))
      (earlier.reverse ++ tree :: more.tree) := by
  induction given generalizing argument tree more with
  | nil =>
      obtain ⟨first, resolvedFirst, rfl, rfl⟩ := value
      exact ⟨.arguments first more, ⟨resolvedFirst, resolved⟩, rfl, rfl⟩
  | snoc given before comma ih =>
      obtain ⟨next, resolvedNext, rfl, rfl⟩ := value
      have whole := ih before (.moreArguments comma next more) ⟨resolvedNext, resolved⟩
      simp only [List.reverse_cons, List.append_assoc]
      exact whole

theorem entered_fields (entered : Entered earlier tokens) (field : Derives .field entry tree)
    (more : Derivation .moreFields) (resolved : more.Resolved) (last : Option Separator) :
    Derives .fields (tokens ++ (entry ++ (more.tokens ++ lastSeparator last)))
      (earlier.reverse ++ tree :: more.tree) := by
  induction entered generalizing entry tree more with
  | nil =>
      obtain ⟨first, resolvedFirst, rfl, rfl⟩ := field
      exact ⟨.fields first more last, ⟨resolvedFirst, resolved⟩, rfl, rfl⟩
  | snoc entered before separator ih =>
      obtain ⟨next, resolvedNext, rfl, rfl⟩ := field
      have whole := ih before (.moreFields separator next more) ⟨resolvedNext, resolved⟩
      have inner : (Derivation.moreFields separator next more).tokens =
          separator.token :: (next.tokens ++ more.tokens) := rfl
      simp only [inner, List.cons_append, List.append_assoc] at whole
      simp only [List.reverse_cons, List.append_assoc]
      exact whole

/-- All fields, the last one with or without a separator behind it. -/
theorem entered_all (entered : Entered earlier tokens) (field : Derives .field entry tree)
    (last : Option Separator) :
    Derives .fields (tokens ++ (entry ++ lastSeparator last)) (tree :: earlier).reverse := by
  rw [List.reverse_cons]
  exact entered_fields entered field .noMoreFields trivial last

theorem guarded_starts (guarded : Guarded earlier tokens) :
    ∃ (word : Word .ifWord) (rest : List Token), tokens = word.token :: rest := by
  induction guarded with
  | first word => exact ⟨word, [], rfl⟩
  | more _ _ _ _ _ ih =>
      obtain ⟨word, rest, rfl⟩ := ih
      exact ⟨word, _, rfl⟩

/-- A choice of branches, from its first word. -/
theorem guarded_choice (guarded : Guarded earlier tokens)
    (derivesCondition : Derives .expression test condition) (follows : Word .thenWord)
    (derivesBody : Derives .block block body) (others : Derivation .branches)
    (resolvedOthers : others.Resolved) (otherwise : Derivation .alternative)
    (resolvedOtherwise : otherwise.Resolved) (finish : Word .endWord) :
    ∃ choice : Derivation .statement, choice.Resolved ∧ ¬ choice.EndsInExpression ∧
      choice.tokens = tokens ++ (test ++ follows.token ::
        (block ++ (others.tokens ++ (otherwise.tokens ++ [finish.token])))) ∧
      choice.tree = [.choose (earlier.extend (.mk condition body)).1
        ((earlier.extend (.mk condition body)).2 ++ others.tree) otherwise.tree] := by
  induction guarded generalizing test condition follows block body others with
  | first word =>
      obtain ⟨condition, resolvedCondition, rfl, rfl⟩ := derivesCondition
      obtain ⟨body, resolvedBody, rfl, rfl⟩ := derivesBody
      exact ⟨.choose word condition follows body others otherwise finish,
        ⟨resolvedCondition, resolvedBody, resolvedOthers, resolvedOtherwise⟩, id, rfl, rfl⟩
  | more guarded derivesBefore followsBefore derivesBefore' word ih =>
      obtain ⟨condition, resolvedCondition, rfl, rfl⟩ := derivesCondition
      obtain ⟨body, resolvedBody, rfl, rfl⟩ := derivesBody
      obtain ⟨choice, resolved, complete, sameTokens, sameTree⟩ :=
        ih derivesBefore followsBefore derivesBefore'
          (.moreBranches word condition follows body others)
          ⟨resolvedCondition, resolvedBody, resolvedOthers⟩
      refine ⟨choice, resolved, complete, ?_, ?_⟩
      · rw [sameTokens]
        change _ ++ (_ ++ _ :: (_ ++ (word.token :: (condition.tokens ++ follows.token ::
          (body.tokens ++ others.tokens)) ++ _))) = _
        simp only [List.append_assoc, List.cons_append, List.nil_append]
      · rw [sameTree, extend_some, List.append_assoc]
        rfl

/-! Operands and the operators that wait for them. -/

theorem derives_lower {low high : Nat} (derives : Derives (.level high) tokens tree)
    (le : low ≤ high) (bound : high ≤ 5) : Derives (.level low) tokens tree := by
  induction le with
  | refl => exact derives
  | @step middle _ ih =>
      obtain ⟨inner, resolved, rfl, rfl⟩ := derives
      have room : middle < 5 := by omega
      exact ih ⟨.operand room inner, resolved, rfl, rfl⟩ (by omega)

-- The induction is on what is waiting. The level of the operand grows weaker on the way out, as
-- each operator that is taken turns it into an operand of its own level.
/-- Combining an operand with pending operators derives what their tokens say. -/
theorem waiting_combine (waiting : Waiting pending operators) {level high : Nat} (low : level ≤ 2)
    (le : level ≤ high) (bound : high ≤ 5) (fits : Fits high pending)
    (operand : Derives (.level high) last tree) :
    ∃ operators' last', Waiting (combine level tree pending).2 operators' ∧
      Fits level (combine level tree pending).2 ∧
      Derives (.level level) last' (combine level tree pending).1 ∧
      operators' ++ last' = operators ++ last := by
  induction waiting generalizing high last tree with
  | nil => exact ⟨[], last, .nil, trivial, derives_lower operand le bound, rfl⟩
  | @negate pending before waiting mark ih =>
      obtain ⟨inner, resolved, rfl, rfl⟩ := derives_lower operand fits bound
      obtain ⟨operators', last', waiting', fits', derives, same⟩ :=
        ih (by omega) (by omega) (fits_chain (Nat.le_refl 3) pending)
          ⟨.negate mark inner, resolved, rfl, rfl⟩
      refine ⟨operators', last', waiting', fits', derives, same.trans ?_⟩
      exact (List.append_assoc before [mark.token] inner.tokens).symm
  | @binary pending before lhsTokens lhs operation waiting fitsBefore derivesLhs mark ih =>
      by_cases taken : level ≤ operation.level
      · obtain ⟨left, resolvedLeft, rfl, rfl⟩ := derivesLhs
        obtain ⟨right, resolvedRight, rfl, rfl⟩ := derives_lower operand fits bound
        have two := level_le_two operation
        obtain ⟨operators', last', waiting', fits', derives, same⟩ :=
          ih taken (by omega) fitsBefore
            ⟨.binary left operation rfl mark right, ⟨resolvedLeft, resolvedRight⟩, rfl, rfl⟩
        have combined : combine level right.tree (.binary left.tree operation :: pending) =
            combine level (.binary left.tree operation right.tree) pending := if_pos taken
        rw [combined]
        refine ⟨operators', last', waiting', fits', derives, same.trans ?_⟩
        change before ++ (left.tokens ++ mark.token :: right.tokens) = _
        simp only [List.append_assoc, List.cons_append, List.nil_append]
      · have combined : combine level tree (.binary lhs operation :: pending) =
            (tree, .binary lhs operation :: pending) := if_neg taken
        rw [combined]
        exact ⟨_, last, .binary waiting fitsBefore derivesLhs mark, Nat.lt_of_not_le taken,
          derives_lower operand le bound, rfl⟩

theorem combine_zero (operand : Expression) (pending : List Pending) :
    (combine 0 operand pending).2 = [] := by
  induction pending generalizing operand with
  | nil => rfl
  | cons first rest ih =>
      cases first with
      | negate => exact ih (.negate operand)
      | binary lhs operation => exact ih (.binary lhs operation operand)

end LuaCore.Tree.Grammar
