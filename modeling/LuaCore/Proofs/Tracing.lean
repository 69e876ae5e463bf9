import LuaCore.Proofs.Origin

/-!
Every step of the reader keeps the origin of its state, so that an accepted state is one whose
tokens the grammar derives.
-/

namespace LuaCore.Tree.Grammar

open Reader

-- How an expression goes on has no bearing on what stands in front of it.
theorem within_append (within : Within outer tokens inside) (more : List Token) :
    Within outer tokens (inside ++ more) := by
  cases within with
  | evaluated first stands rest => exact .evaluated first stands (rest ++ more)
  | assigned within derives sign => exact .assigned within derives sign _
  | declared stands word name sign => exact .declared stands word name sign _
  | returned stands word => exact .returned stands word _
  | condition stands guarded => exact .condition stands guarded _
  | loopStart stands word counter sign => exact .loopStart stands word counter sign _
  | loopLimit within derives comma => exact .loopLimit within derives comma _
  | loopStep within derives comma => exact .loopStep within derives comma _
  | parentheses left facing => exact .parentheses left facing _
  | key behind left => exact .key behind left _
  | argument behind left given => exact .argument behind left given _
  | positional tabled => exact .positional tabled _
  | named tabled name sign => exact .named tabled name sign _
  | fieldKey tabled left => exact .fieldKey tabled left _
  | keyed within derives right sign => exact .keyed within derives right sign _

/-- In front of an expression that may start with anything. -/
theorem facing_first (within : ∀ inside, Within outer tokens inside) (token : Token) :
    Facing [] outer tokens token := by
  rw [← List.append_nil tokens]
  exact .intro (within [token]) .nil

/-- An operand that starts where one can. -/
theorem facing_behind (facing : Facing pending outer tokens first)
    (derives : Derives (.level 4) (first :: rest) tree) :
    Behind tree pending outer (tokens ++ first :: rest) := by
  obtain ⟨within, waiting⟩ := facing
  have longer := within_append within rest
  rw [List.append_assoc] at longer ⊢
  exact .intro longer waiting derives

/-- An operand that is continued. -/
theorem behind_extend (behind : Behind tree pending outer tokens) (more : List Token)
    (extend : ∀ operand, Derives (.level 4) operand tree →
      Derives (.level 4) (operand ++ more) tree') :
    Behind tree' pending outer (tokens ++ more) := by
  obtain ⟨within, waiting, derives⟩ := behind
  have longer := within_append within more
  rw [List.append_assoc] at longer
  rw [List.append_assoc, List.append_assoc]
  exact .intro longer waiting (extend _ derives)

/-- The operators in front of an operand take it. -/
theorem behind_complete (behind : Behind operand pending outer tokens) :
    ∃ before last, tokens = before ++ last ∧ Within outer before last ∧
      Derives .expression last (complete operand pending) := by
  obtain ⟨within, waiting, derives⟩ := behind
  obtain ⟨operators', last', waiting', _, derives', same⟩ :=
    waiting_combine waiting (Nat.zero_le 2) (Nat.zero_le 4) (by omega)
      (fits_chain (by omega) _) derives
  -- At the lowest level nothing is left waiting, so that the last phrase is the whole expression.
  rw [combine_zero] at waiting'
  cases waiting'
  rw [← same] at within ⊢
  exact ⟨_, last', rfl, within, derives'⟩

/-- A statement where one can start. -/
theorem stands_statement (stands : Stands before outer tokens first.kind)
    (next : Derivation .statement) (resolved : next.Resolved)
    (starts : next.tokens = first :: rest) (kind : Token.Kind)
    (apart : next.EndsInExpression → ¬ IsGlue kind) :
    Stands (next.tree.reverse ++ before) outer (tokens ++ next.tokens) kind := by
  obtain ⟨around, listed, apartBefore⟩ := stands
  rw [List.append_assoc]
  refine .intro around (.snoc listed next resolved ?_) apart
  intro sticky token member
  rw [starts] at member
  cases member
  exact apartBefore sticky

/-- A statement that ends with a word lets any other follow it. -/
theorem stands_complete (stands : Stands before outer tokens first.kind)
    (next : Derivation .statement) (resolved : next.Resolved)
    (starts : next.tokens = first :: rest) (complete : ¬ next.EndsInExpression)
    (kind : Token.Kind) : Stands (next.tree.reverse ++ before) outer (tokens ++ next.tokens) kind :=
  stands_statement stands next resolved starts kind fun ends => absurd ends complete

theorem stands_block (stands : Stands before outer tokens kind) (closing : Derivation .closing)
    (resolved : closing.Resolved) :
    ∃ front block, tokens = front ++ block ∧ Around outer front ∧
      Derives .block (block ++ closing.tokens) (before.reverse ++ closing.tree) := by
  obtain ⟨around, listed, _⟩ := stands
  exact ⟨_, _, rfl, around, listed_block listed closing resolved⟩


/-- An operand that is a single token. -/
theorem facing_leaf (facing : Facing pending outer tokens token) (leaf : Derivation (.level 5))
    (resolved : leaf.Resolved) (single : leaf.tokens = [token]) :
    Origin (.operator leaf.tree pending outer) (tokens ++ [token]) :=
  .operator (facing_behind facing
    (derives_lower ⟨leaf, resolved, single, rfl⟩ (by omega) (Nat.le_refl 5)))

theorem feedOperand_origin (facing : Facing pending outer tokens token)
    (step : feedOperand pending outer token = some next) : Origin next (tokens ++ [token]) := by
  obtain ⟨kind, text, position⟩ := token
  cases kind with
  | number =>
      cases step
      exact facing_leaf facing (.number ⟨text, position⟩) trivial rfl
  | string =>
      cases step
      exact facing_leaf facing (.string ⟨text, position⟩) trivial rfl
  | name =>
      cases step
      exact facing_leaf facing (.reference ⟨text, position⟩) trivial rfl
  | keyword word =>
      cases word with
      | trueWord =>
          cases step
          exact facing_leaf facing (.truth ⟨text, position⟩) trivial rfl
      | falseWord =>
          cases step
          exact facing_leaf facing (.falsehood ⟨text, position⟩) trivial rfl
      | nilWord =>
          cases step
          exact facing_leaf facing (.nil ⟨text, position⟩) trivial rfl
      | functionWord =>
          cases step
          exact .header (.literal ⟨text, position⟩ facing)
      | _ => cases step
  | symbol mark =>
      cases mark with
      | operator operation =>
          cases operation with
          | subtract =>
              cases step
              refine .operand fun token => ?_
              obtain ⟨within, waiting⟩ := facing
              have longer := within_append within [token]
              rw [List.append_assoc]
              exact .intro longer (.negate waiting ⟨text, position⟩)
          | _ => cases step
      | leftParenthesis =>
          cases step
          exact .operand (facing_first (.parentheses ⟨text, position⟩ facing))
      | leftBrace =>
          cases step
          exact .field (.intro ⟨text, position⟩ facing .nil)
      | _ => cases step
  | finish => cases step

theorem headed_around (headed : Headed header tokens) (left : Mark .leftParenthesis)
    (parameters : Parameters) (right : Mark .rightParenthesis) :
    Around (header.body parameters.names)
      (tokens ++ left.token :: (parameters.tokens ++ [right.token])) := by
  cases header with
  | declaration => exact .declaration headed left parameters right
  | literal => exact .literal headed left parameters right

theorem tabled_operator (left : Mark .leftBrace) (facing : Facing pending outer tokens left.token)
    (derivesFields : Derives .fields fields trees) (right : Mark .rightBrace) :
    Origin (.operator (.table trees) pending outer)
      (tokens ++ left.token :: (fields ++ [right.token])) := by
  obtain ⟨entries, resolved, rfl, rfl⟩ := derivesFields
  exact .operator (facing_behind facing (derives_lower
    ⟨.table left entries right, resolved, rfl, rfl⟩ (by omega) (Nat.le_refl 5)))

/-- Where a block starts, every statement can. -/
theorem around_stands (around : Around outer tokens) (kind : Token.Kind) :
    Stands [] outer tokens kind := by
  rw [← List.append_nil tokens]
  exact .intro around .nil False.elim

/-- A statement of several words, which is complete with the last one. -/
theorem statement_origin (stands : Stands before outer tokens first.kind)
    (next : Derivation .statement) (resolved : next.Resolved)
    (starts : next.tokens = first :: rest) (complete : ¬ next.EndsInExpression)
    (tree : next.tree = [statement]) (same : tokens ++ next.tokens = whole) :
    Origin (.statement (statement :: before) outer) whole := by
  rw [← same]
  refine .statement fun kind => ?_
  have after := stands_complete stands next resolved starts complete kind
  rw [tree] at after
  exact after

theorem around_declaration (around : Around (.declaration name parameters before outer) tokens)
    (derivesBody : Derives .block block body) (finish : Word .endWord) :
    Origin (.statement (.function name parameters body :: before) outer)
      (tokens ++ (block ++ [finish.token])) := by
  cases around with
  | declaration headed left parameters right =>
      cases headed with
      | declaration stands word name =>
          obtain ⟨body, resolved, rfl, rfl⟩ := derivesBody
          refine statement_origin stands
            (.function word name left parameters right body finish) resolved rfl id rfl ?_
          change _ ++ (word.token :: name.token :: left.token ::
            (parameters.tokens ++ right.token :: (body.tokens ++ [finish.token]))) = _
          simp only [List.append_assoc, List.cons_append, List.nil_append]

theorem around_literal (around : Around (.literal parameters pending outer) tokens)
    (derivesBody : Derives .block block body) (finish : Word .endWord) :
    Origin (.operator (.function parameters body) pending outer)
      (tokens ++ (block ++ [finish.token])) := by
  cases around with
  | literal headed left parameters right =>
      cases headed with
      | literal word facing =>
          obtain ⟨body, resolved, rfl, rfl⟩ := derivesBody
          have behind := facing_behind facing (derives_lower
            ⟨.literal word left parameters right body finish, resolved, rfl, rfl⟩ (by omega)
            (Nat.le_refl 5))
          simp only [List.append_assoc, List.cons_append, List.nil_append]
          exact .operator behind

/-- The end of a choice behind the body of a branch. -/
theorem around_choice (around : Around (.branch earlier condition before outer) tokens)
    (derivesBody : Derives .block block body) (otherwise : Derivation .alternative)
    (resolved : otherwise.Resolved) (finish : Word .endWord)
    (same : tokens ++ (block ++ (otherwise.tokens ++ [finish.token])) = whole) :
    Origin (.statement (.choose (earlier.extend (.mk condition body)).1
      (earlier.extend (.mk condition body)).2 otherwise.tree :: before) outer) whole := by
  cases around with
  | branch within derivesCondition follows =>
      cases within with
      | condition stands guarded =>
          obtain ⟨choice, resolvedChoice, complete, sameTokens, sameTree⟩ :=
            guarded_choice guarded derivesCondition follows derivesBody .noBranches trivial
              otherwise resolved finish
          obtain ⟨word, rest, rfl⟩ := guarded_starts guarded
          have first : word.token.kind = .keyword .ifWord := rfl
          rw [← first] at stands
          have noOthers : (Derivation.noBranches).tree = [] := rfl
          rw [noOthers, List.append_nil] at sameTree
          apply statement_origin stands choice resolvedChoice sameTokens complete sameTree
          rw [sameTokens, ← same]
          change _ ++ (_ ++ (_ ++ _ :: (_ ++ ([] ++ _)))) = _
          simp only [List.append_assoc, List.cons_append, List.nil_append]

/-- The end of a loop. -/
theorem around_rounds (around : Around (.rounds counter initial limit stride before outer) tokens)
    (derivesBody : Derives .block block body) (finish : Word .endWord) :
    Origin (.statement (.loop counter initial limit stride body :: before) outer)
      (tokens ++ (block ++ [finish.token])) := by
  obtain ⟨body, resolvedBody, rfl, rfl⟩ := derivesBody
  cases around with
  | rounds within derivesLimit follows =>
      obtain ⟨limit, resolvedLimit, rfl, rfl⟩ := derivesLimit
      cases within with
      | loopLimit within derivesInitial comma =>
          obtain ⟨initial, resolvedInitial, rfl, rfl⟩ := derivesInitial
          cases within with
          | loopStart stands word counter sign =>
              refine statement_origin stands
                (.loop word counter sign initial comma limit follows body finish)
                ⟨resolvedInitial, resolvedLimit, resolvedBody⟩ rfl id rfl ?_
              change _ ++ (word.token :: counter.token :: sign.token ::
                (initial.tokens ++ comma.token ::
                  (limit.tokens ++ follows.token :: (body.tokens ++ [finish.token])))) = _
              simp only [List.append_assoc, List.cons_append, List.nil_append]
  | roundsBy within derivesStep follows =>
      obtain ⟨stride, resolvedStride, rfl, rfl⟩ := derivesStep
      cases within with
      | loopStep within derivesLimit comma' =>
          obtain ⟨limit, resolvedLimit, rfl, rfl⟩ := derivesLimit
          cases within with
          | loopLimit within derivesInitial comma =>
              obtain ⟨initial, resolvedInitial, rfl, rfl⟩ := derivesInitial
              cases within with
              | loopStart stands word counter sign =>
                  refine statement_origin stands
                    (.loopBy word counter sign initial comma limit comma' stride follows body
                      finish)
                    ⟨resolvedInitial, resolvedLimit, resolvedStride, resolvedBody⟩ rfl id rfl ?_
                  change _ ++ (word.token :: counter.token :: sign.token ::
                    (initial.tokens ++ comma.token ::
                      (limit.tokens ++ comma'.token ::
                        (stride.tokens ++ follows.token :: (body.tokens ++ [finish.token]))))) = _
                  simp only [List.append_assoc, List.cons_append, List.nil_append]

theorem feedClosing_closes (step : feedClosing before outer token = some next) :
    Closes token.kind := by
  obtain ⟨kind, text, position⟩ := token
  cases kind with
  | keyword word =>
      cases word with
      | endWord | elseWord | elseifWord => simp [Closes]
      | _ => cases outer <;> cases step
  | finish => simp [Closes]
  | _ => cases outer <;> cases step

/-- The end of a block. -/
theorem feedClosing_origin (around : Around outer tokens)
    (derivesBody : Derives .block block before.reverse)
    (step : feedClosing before outer token = some next) :
    Origin next (tokens ++ (block ++ [token])) := by
  have closes := feedClosing_closes step
  obtain ⟨kind, text, position⟩ := token
  simp only [Closes, List.mem_cons, List.not_mem_nil, or_false] at closes
  -- The word decides which blocks it can close: `end`, `else`, `elseif`, and the end of the text.
  rcases closes with rfl | rfl | rfl | rfl
  · cases outer with
    | chunk => cases step
    | declaration =>
        cases step
        exact around_declaration around derivesBody ⟨text, position⟩
    | literal =>
        cases step
        exact around_literal around derivesBody ⟨text, position⟩
    | branch =>
        cases step
        exact around_choice around derivesBody .noAlternative trivial ⟨text, position⟩ rfl
    | otherwise =>
        cases step
        cases around with
        | otherwise around derivesBranch word =>
            obtain ⟨body, resolved, rfl, same⟩ := derivesBody
            rw [← same]
            refine around_choice around derivesBranch (.alternative word body) resolved
              ⟨text, position⟩ ?_
            change _ ++ (_ ++ (word.token :: body.tokens ++ _)) = _
            simp only [List.append_assoc, List.cons_append, List.nil_append]
            rfl
    | rounds =>
        cases step
        exact around_rounds around derivesBody ⟨text, position⟩
  · cases outer with
    | branch =>
        cases step
        exact .statement (around_stands (.otherwise around derivesBody ⟨text, position⟩))
    | _ => cases step
  · cases outer with
    | branch =>
        cases step
        cases around with
        | branch within derivesCondition follows =>
            cases within with
            | condition stands guarded =>
                have branches := Guarded.more guarded derivesCondition follows derivesBody
                  ⟨text, position⟩
                have facing := facing_first (Within.condition stands branches)
                simp only [List.append_assoc, List.cons_append, List.nil_append] at facing ⊢
                exact .operand facing
    | _ => cases step
  · cases outer with
    | chunk =>
        cases step
        cases around
        exact .accepted derivesBody ⟨text, position⟩
    | _ => cases step

/-- The start of a statement, or the end of a block without a `return`. -/
theorem feedStatement_origin (stands : Stands before outer tokens token.kind)
    (step : feedStatement before outer token = some next) : Origin next (tokens ++ [token]) := by
  -- All tokens but the words below and the semicolon start an expression or close the block.
  have other : (feedOperand [] (.evaluated token.position before outer) token).or
      (feedClosing before outer token) = some next → Origin next (tokens ++ [token]) := by
    intro either
    rcases Option.or_eq_some_iff.mp either with opens | ⟨_, closes⟩
    · have facing : Facing [] (.evaluated token.position before outer) (tokens ++ []) token :=
        .intro (.evaluated token stands []) .nil
      rw [List.append_nil] at facing
      exact feedOperand_origin facing opens
    · obtain ⟨front, block, rfl, around, derives⟩ := stands_block stands .noReturn trivial
      have body : (before.reverse ++ (Derivation.noReturn).tree : Block) = before.reverse :=
        List.append_nil before.reverse
      have words : block ++ (Derivation.noReturn).tokens = block := List.append_nil block
      rw [body, words] at derives
      rw [List.append_assoc]
      exact feedClosing_origin around derives closes
  obtain ⟨kind, text, position⟩ := token
  cases kind with
  | keyword word =>
      cases word with
      | localWord =>
          cases step
          exact .declaring stands ⟨text, position⟩
      | functionWord =>
          cases step
          exact .function stands ⟨text, position⟩
      | ifWord =>
          cases step
          exact .operand (facing_first (.condition stands (.first ⟨text, position⟩)))
      | forWord =>
          cases step
          exact .counting stands ⟨text, position⟩
      | returnWord =>
          cases step
          exact .returning stands ⟨text, position⟩
      | _ => exact other step
  | symbol mark =>
      cases mark with
      | semicolon =>
          cases step
          exact .statement (stands_complete stands (.empty ⟨text, position⟩) trivial rfl id)
      | _ => exact other step
  | _ => exact other step

/-- The end of a block with a `return`. -/
theorem feedReturned_origin (stands : Stands before outer tokens kind)
    (returns : Option (Mark .semicolon) → Derivation .closing)
    (resolved : ∀ stop, (returns stop).Resolved)
    (same : ∀ stop, (returns stop).tokens = closing ++ optionalTokens stop)
    (tree : ∀ stop, (returns stop).tree = [.returns value])
    (step : feedReturned value before outer token = some next) :
    Origin next (tokens ++ (closing ++ [token])) := by
  have body : ∀ stop, ∃ front block, tokens = front ++ block ∧ Around outer front ∧
      Derives .block (block ++ (closing ++ optionalTokens stop))
        (.returns value :: before).reverse := by
    intro stop
    have block := stands_block stands (returns stop) (resolved stop)
    rw [same, tree] at block
    rw [List.reverse_cons]
    exact block
  have other : feedClosing (.returns value :: before) outer token = some next →
      Origin next (tokens ++ (closing ++ [token])) := by
    intro closes
    obtain ⟨front, block, rfl, around, derives⟩ := body none
    have origin := feedClosing_origin around derives closes
    simp only [optionalTokens, List.append_nil, List.append_assoc] at origin ⊢
    exact origin
  obtain ⟨kind, text, position⟩ := token
  cases kind with
  | symbol mark =>
      cases mark with
      | semicolon =>
          cases step
          obtain ⟨front, block, rfl, around, derives⟩ := body (some ⟨text, position⟩)
          rw [List.append_assoc]
          exact .closing around derives
      | _ => exact other step
  | _ => exact other step

/-- The end of a field. -/
theorem feedFieldEnd_origin (tabled : Tabled earlier pending outer tokens)
    (field : Derives .field entry tree)
    (step : feedFieldEnd (tree :: earlier) pending outer token = some next) :
    Origin next (tokens ++ (entry ++ [token])) := by
  obtain ⟨left, facing, entered⟩ := tabled
  rw [List.append_assoc, List.cons_append]
  obtain ⟨kind, text, position⟩ := token
  cases kind with
  | symbol mark =>
      cases mark with
      | comma =>
          cases step
          exact .field (.intro left facing (.snoc entered field (.comma ⟨text, position⟩)))
      | semicolon =>
          cases step
          exact .field (.intro left facing (.snoc entered field (.semicolon ⟨text, position⟩)))
      | rightBrace =>
          cases step
          have origin := tabled_operator left facing (entered_all entered field none)
            ⟨text, position⟩
          simp only [lastSeparator, List.append_nil, List.append_assoc] at origin
          exact origin
      | _ => cases step
  | _ => cases step

/-! What stands behind a complete expression. -/

theorem stops_glue {kind : Token.Kind} (stops : ¬ Continues 0 kind) : ¬ IsGlue kind := by
  rintro (rfl | rfl)
  · exact stops (Nat.zero_le 4)
  · exact stops (Nat.zero_le _)

theorem evaluated_origin (within : Within (.evaluated position before outer) tokens expression)
    (derives : Derives .expression expression tree) (stops : ¬ Continues 0 token.kind)
    (step : feedComplete tree (.evaluated position before outer) token = some next) :
    Origin next (tokens ++ (expression ++ [token])) := by
  obtain ⟨value, resolved, sameTokens, rfl⟩ := derives
  -- Only the sign behind it tells the target of an assignment from an expression on its own.
  by_cases sign : token.kind = .symbol .assign
  · obtain ⟨mark, rfl⟩ := lexeme_exists sign
    cases step
    exact .operand (facing_first (.assigned within ⟨value, resolved, sameTokens, rfl⟩ mark))
  · rw [feedComplete_evaluated value.tree position before outer token sign] at step
    obtain ⟨first, stands, rest⟩ := within
    have statement : Stands (.evaluate value.tree :: before) outer (tokens ++ value.tokens)
        token.kind :=
      stands_statement stands (.evaluate value) resolved sameTokens token.kind
        fun _ => stops_glue stops
    rw [sameTokens] at statement
    rw [← List.append_assoc]
    exact feedStatement_origin statement step

theorem assigned_origin
    (within : Within (.assigned position target before outer) tokens expression)
    (derives : Derives .expression expression tree) (stops : ¬ Continues 0 token.kind)
    (step : feedComplete tree (.assigned position target before outer) token = some next) :
    Origin next (tokens ++ (expression ++ [token])) := by
  obtain ⟨value, resolved, rfl, rfl⟩ := derives
  cases within with
  | assigned within derivesTarget sign =>
      obtain ⟨target, resolvedTarget, starts, rfl⟩ := derivesTarget
      obtain ⟨first, stands, rest⟩ := within
      have statement := stands_statement stands (.assign target sign value)
        ⟨resolvedTarget, resolved⟩ (congrArg (· ++ sign.token :: value.tokens) starts) token.kind
        fun _ => stops_glue stops
      have whole : (Derivation.assign target sign value).tokens =
          target.tokens ++ sign.token :: value.tokens := rfl
      have tree : (Derivation.assign target sign value).tree =
          [.assign (startOf target.tokens) target.tree value.tree] := rfl
      rw [tree, whole, starts] at statement
      have origin := feedStatement_origin statement step
      simp only [List.append_assoc, List.cons_append, List.nil_append] at origin ⊢
      exact origin

theorem declared_origin (within : Within (.declared name before outer) tokens expression)
    (derives : Derives .expression expression tree) (stops : ¬ Continues 0 token.kind)
    (step : feedComplete tree (.declared name before outer) token = some next) :
    Origin next (tokens ++ (expression ++ [token])) := by
  obtain ⟨value, resolved, rfl, rfl⟩ := derives
  cases within with
  | declared stands word name sign =>
      have statement := stands_statement stands (.declareAs word name sign value) resolved rfl
        token.kind fun _ => stops_glue stops
      have whole : (Derivation.declareAs word name sign value).tokens =
          word.token :: name.token :: sign.token :: value.tokens := rfl
      rw [whole] at statement
      have origin := feedStatement_origin statement step
      simp only [List.append_assoc, List.cons_append, List.nil_append] at origin ⊢
      exact origin

theorem returned_origin (within : Within (.returned before outer) tokens expression)
    (derives : Derives .expression expression tree)
    (step : feedComplete tree (.returned before outer) token = some next) :
    Origin next (tokens ++ (expression ++ [token])) := by
  obtain ⟨value, resolved, rfl, rfl⟩ := derives
  cases within with
  | returned stands word =>
      have same : ∀ stop, (Derivation.returns word value stop).tokens =
          word.token :: value.tokens ++ optionalTokens stop := fun _ => rfl
      have origin := feedReturned_origin stands (.returns word value) (fun _ => resolved) same
        (fun _ => rfl) step
      simp only [List.append_assoc, List.cons_append, List.nil_append] at origin ⊢
      exact origin

theorem behind_call (behind : Behind callee pending outer tokens) (left : Mark .leftParenthesis)
    (derivesValues : Derives .arguments arguments trees) (right : Mark .rightParenthesis) :
    Origin (.operator (.call callee trees) pending outer)
      (tokens ++ left.token :: (arguments ++ [right.token])) := by
  obtain ⟨values, resolved, rfl, rfl⟩ := derivesValues
  refine .operator (behind_extend behind _ fun operand derivesCallee => ?_)
  obtain ⟨callee, resolvedCallee, rfl, rfl⟩ := derivesCallee
  exact ⟨.call callee left values right, ⟨resolvedCallee, resolved⟩, rfl, rfl⟩

theorem argument_origin (within : Within (.argument callee earlier pending outer) tokens expression)
    (derives : Derives .expression expression tree)
    (step : feedComplete tree (.argument callee earlier pending outer) token = some next) :
    Origin next (tokens ++ (expression ++ [token])) := by
  cases within with
  | argument behind left given =>
      rw [List.append_assoc, List.cons_append]
      obtain ⟨kind, text, position⟩ := token
      cases kind with
      | symbol mark =>
          cases mark with
          | comma =>
              cases step
              exact .operand (facing_first (.argument behind left
                (.snoc given derives ⟨text, position⟩)))
          | rightParenthesis =>
              cases step
              have values := given_arguments given derives .noMoreArguments trivial
              have origin := behind_call behind left values ⟨text, position⟩
              have noMore : (Derivation.noMoreArguments).tokens = [] := rfl
              rw [noMore, List.append_nil, List.append_assoc] at origin
              rw [List.reverse_cons]
              exact origin
          | _ => cases step
      | _ => cases step

theorem key_origin (within : Within (.key target pending outer) tokens expression)
    (derives : Derives .expression expression tree)
    (step : feedComplete tree (.key target pending outer) token = some next) :
    Origin next (tokens ++ (expression ++ [token])) := by
  cases within with
  | key behind left =>
      obtain ⟨key, resolved, rfl, rfl⟩ := derives
      obtain ⟨kind, text, position⟩ := token
      cases kind with
      | symbol mark =>
          cases mark with
          | rightBracket =>
              cases step
              rw [List.append_assoc]
              refine .operator (behind_extend behind _ fun operand derivesTarget => ?_)
              obtain ⟨target, resolvedTarget, rfl, rfl⟩ := derivesTarget
              exact ⟨.index target left key ⟨text, position⟩, ⟨resolvedTarget, resolved⟩, rfl, rfl⟩
          | _ => cases step
      | _ => cases step

theorem parentheses_origin (within : Within (.parentheses pending outer) tokens expression)
    (derives : Derives .expression expression tree)
    (step : feedComplete tree (.parentheses pending outer) token = some next) :
    Origin next (tokens ++ (expression ++ [token])) := by
  cases within with
  | parentheses left facing =>
      obtain ⟨inner, resolved, rfl, rfl⟩ := derives
      obtain ⟨kind, text, position⟩ := token
      cases kind with
      | symbol mark =>
          cases mark with
          | rightParenthesis =>
              cases step
              rw [List.append_assoc]
              exact .operator (facing_behind facing (derives_lower
                ⟨.parentheses left inner ⟨text, position⟩, resolved, rfl, rfl⟩ (by omega)
                (Nat.le_refl 5)))
          | _ => cases step
      | _ => cases step

theorem feedComplete_origin (within : Within outer tokens expression)
    (derives : Derives .expression expression tree) (stops : ¬ Continues 0 token.kind)
    (step : feedComplete tree outer token = some next) :
    Origin next (tokens ++ (expression ++ [token])) := by
  cases outer with
  | evaluated => exact evaluated_origin within derives stops step
  | assigned => exact assigned_origin within derives stops step
  | declared => exact declared_origin within derives stops step
  | returned => exact returned_origin within derives step
  | parentheses => exact parentheses_origin within derives step
  | key => exact key_origin within derives step
  | argument => exact argument_origin within derives step
  | positional =>
      obtain ⟨value, resolved, rfl, rfl⟩ := derives
      cases within with
      | positional tabled =>
          exact feedFieldEnd_origin tabled ⟨.positional value, resolved, rfl, rfl⟩ step
  | named =>
      obtain ⟨value, resolved, rfl, rfl⟩ := derives
      cases within with
      | named tabled name sign =>
          have origin := feedFieldEnd_origin tabled ⟨.named name sign value, resolved, rfl, rfl⟩
            step
          rw [List.append_assoc]
          exact origin
  | keyed =>
      obtain ⟨value, resolved, rfl, rfl⟩ := derives
      cases within with
      | keyed within derivesKey right sign =>
          obtain ⟨key, resolvedKey, rfl, rfl⟩ := derivesKey
          cases within with
          | fieldKey tabled left =>
              have origin := feedFieldEnd_origin tabled
                ⟨.keyed left key right sign value, ⟨resolvedKey, resolved⟩, rfl, rfl⟩ step
              have whole : (Derivation.keyed left key right sign value).tokens =
                left.token :: (key.tokens ++ right.token :: sign.token :: value.tokens) := rfl
              rw [whole] at origin
              simp only [List.append_assoc, List.cons_append, List.nil_append] at origin ⊢
              exact origin
  | condition =>
      obtain ⟨kind, text, position⟩ := token
      cases kind with
      | keyword word =>
          cases word with
          | thenWord =>
              cases step
              exact .statement (around_stands (.branch within derives ⟨text, position⟩))
          | _ => cases step
      | _ => cases step
  | loopStart =>
      obtain ⟨kind, text, position⟩ := token
      cases kind with
      | symbol mark =>
          cases mark with
          | comma =>
              cases step
              exact .operand (facing_first (.loopLimit within derives ⟨text, position⟩))
          | _ => cases step
      | _ => cases step
  | loopLimit =>
      obtain ⟨kind, text, position⟩ := token
      cases kind with
      | symbol mark =>
          cases mark with
          | comma =>
              cases step
              exact .operand (facing_first (.loopStep within derives ⟨text, position⟩))
          | _ => cases step
      | keyword word =>
          cases word with
          | doWord =>
              cases step
              exact .statement (around_stands (.rounds within derives ⟨text, position⟩))
          | _ => cases step
      | _ => cases step
  | loopStep =>
      obtain ⟨kind, text, position⟩ := token
      cases kind with
      | keyword word =>
          cases word with
          | doWord =>
              cases step
              exact .statement (around_stands (.roundsBy within derives ⟨text, position⟩))
          | _ => cases step
      | _ => cases step
  | fieldKey =>
      obtain ⟨kind, text, position⟩ := token
      cases kind with
      | symbol mark =>
          cases mark with
          | rightBracket =>
              cases step
              exact .fieldKey within derives ⟨text, position⟩
          | _ => cases step
      | _ => cases step

/-- An operator behind an operand takes what binds more tightly as its left operand. -/
theorem behind_operator (behind : Behind operand pending outer tokens)
    (mark : Mark (.operator operation)) (token : Token) :
    Facing (.binary (combine operation.level operand pending).1 operation ::
      (combine operation.level operand pending).2) outer (tokens ++ [mark.token]) token := by
  obtain ⟨within, waiting, derives⟩ := behind
  have two := level_le_two operation
  obtain ⟨operators, lhs, waiting', fits, derivesLhs, same⟩ :=
    waiting_combine waiting two (by omega) (by omega) (fits_chain (by omega) pending) derives
  have longer := within_append within [mark.token, token]
  rw [← same] at longer ⊢
  have shape : ∀ rest, operators ++ lhs ++ mark.token :: rest =
      operators ++ (lhs ++ [mark.token]) ++ rest := by simp
  rw [shape] at longer
  rw [List.append_assoc, shape, List.append_nil]
  exact .intro longer (.binary waiting' fits derivesLhs mark)

/-- What stands behind an operand. -/
theorem feedOperator_origin (behind : Behind operand pending outer tokens)
    (step : feedOperator operand pending outer token = some next) :
    Origin next (tokens ++ [token]) := by
  have other (stops : ¬ Continues 0 token.kind)
      (completes : feedComplete (complete operand pending) outer token = some next) :
      Origin next (tokens ++ [token]) := by
    obtain ⟨front, expression, rfl, within, derives⟩ := behind_complete behind
    rw [List.append_assoc]
    exact feedComplete_origin within derives stops completes
  obtain ⟨kind, text, position⟩ := token
  cases kind with
  | symbol mark =>
      cases mark with
      | dot =>
          cases step
          exact .member behind ⟨text, position⟩
      | leftBracket =>
          cases step
          exact .operand (facing_first (.key behind ⟨text, position⟩))
      | leftParenthesis =>
          cases step
          exact .arguments behind ⟨text, position⟩
      | operator operation =>
          cases step
          exact .operand (behind_operator behind ⟨text, position⟩)
      | _ => exact other id step
  | _ => exact other id step

/-- Behind a name that starts a field. -/
theorem fieldName_origin (tabled : Tabled earlier pending outer tokens) (name : Name)
    (step : feed (.fieldName earlier name.text pending outer) token = some next) :
    Origin next (tokens ++ [name.token] ++ [token]) := by
  by_cases sign : token.kind = .symbol .assign
  · obtain ⟨mark, rfl⟩ := lexeme_exists sign
    cases step
    rw [List.append_assoc]
    exact .operand (facing_first (.named tabled name mark))
  · rw [feed_fieldName earlier name.text pending outer token sign] at step
    refine feedOperator_origin ?_ step
    exact facing_behind (facing_first (.positional tabled) name.token) (derives_lower
      ⟨.reference name, trivial, rfl, rfl⟩ (by omega) (Nat.le_refl 5))

theorem field_origin (tabled : Tabled earlier pending outer tokens)
    (step : feed (.field earlier pending outer) token = some next) :
    Origin next (tokens ++ [token]) := by
  have facing := facing_first (.positional tabled) token
  obtain ⟨kind, text, position⟩ := token
  cases kind with
  | name =>
      cases step
      exact .fieldName tabled ⟨text, position⟩
  | symbol mark =>
      cases mark with
      | leftBracket =>
          cases step
          exact .operand (facing_first (.fieldKey tabled ⟨text, position⟩))
      | rightBrace =>
          cases step
          obtain ⟨left, before, entered⟩ := tabled
          rw [List.append_assoc, List.cons_append]
          cases entered with
          | nil => exact tabled_operator left before ⟨.noFields, trivial, rfl, rfl⟩ ⟨text, position⟩
          | snoc entered field separator =>
              exact tabled_operator left before (entered_all entered field (some separator))
                ⟨text, position⟩
      | _ => exact feedOperand_origin facing step
  | _ => exact feedOperand_origin facing step

theorem arguments_origin (behind : Behind callee pending outer tokens)
    (left : Mark .leftParenthesis)
    (step : feed (.arguments callee pending outer) token = some next) :
    Origin next (tokens ++ [left.token] ++ [token]) := by
  have facing := facing_first (.argument behind left .nil) token
  obtain ⟨kind, text, position⟩ := token
  cases kind with
  | symbol mark =>
      cases mark with
      | rightParenthesis =>
          cases step
          rw [List.append_assoc]
          exact behind_call behind left ⟨.noArguments, trivial, rfl, rfl⟩ ⟨text, position⟩
      | _ => exact feedOperand_origin facing step
  | _ => exact feedOperand_origin facing step

/-- The name or the parenthesis behind a `function` that starts a statement. -/
theorem function_origin (stands : Stands before outer tokens (.keyword .functionWord))
    (word : Word .functionWord)
    (step : feed (.function word.position before outer) token = some next) :
    Origin next (tokens ++ [word.token] ++ [token]) := by
  obtain ⟨kind, text, position⟩ := token
  cases kind with
  | name =>
      cases step
      rw [List.append_assoc]
      exact .header (.declaration stands word ⟨text, position⟩)
  | symbol mark =>
      cases mark with
      | leftParenthesis =>
          cases step
          have facing : Facing [] (.evaluated word.position before outer) (tokens ++ [])
              word.token := .intro (.evaluated word.token stands []) .nil
          rw [List.append_nil] at facing
          exact .opened (.literal word facing) ⟨text, position⟩
      | _ => cases step
  | _ => cases step

theorem moreTokens_append (first second : List (Mark .comma × Name)) :
    Parameters.moreTokens (first ++ second) =
      Parameters.moreTokens first ++ Parameters.moreTokens second := by
  induction first with
  | nil => rfl
  | cons next rest ih =>
      exact congrArg (fun tokens => next.1.token :: next.2.token :: tokens) ih

theorem names_append (first : Name) (others : List (Mark .comma × Name)) (comma : Mark .comma)
    (last : Name) :
    (Parameters.some first (others ++ [(comma, last)])).names.reverse =
      last.text :: (Parameters.some first others).names.reverse := by
  simp [Parameters.names]

-- The invariant of the reader: one case for each state, and in it one for each token that is not
-- refused.
/-- Each step keeps the origin of the state. -/
theorem feed_origin (origin : Origin state tokens) (step : feed state token = some next) :
    Origin next (tokens ++ [token]) := by
  cases origin with
  | statement stands => exact feedStatement_origin (stands token.kind) step
  | returning stands word =>
      rw [List.append_assoc]
      rcases Option.or_eq_some_iff.mp step with opens | ⟨_, closes⟩
      · have origin := feedOperand_origin (facing_first (.returned stands word) token) opens
        rw [List.append_assoc] at origin
        exact origin
      · exact feedReturned_origin stands (.returnsNothing word) (fun _ => trivial)
          (fun _ => rfl) (fun _ => rfl) closes
  | closing around derives =>
      rw [List.append_assoc]
      exact feedClosing_origin around derives step
  | declared stands word name =>
      by_cases sign : token.kind = .symbol .assign
      · obtain ⟨mark, rfl⟩ := lexeme_exists sign
        cases step
        rw [List.append_assoc]
        exact .operand (facing_first (.declared stands word name mark))
      · rw [feed_declared _ _ _ token sign] at step
        exact feedStatement_origin
          (stands_complete stands (.declare word name) trivial rfl id token.kind) step
  | operand facing => exact feedOperand_origin (facing token) step
  | operator behind => exact feedOperator_origin behind step
  | function stands word => exact function_origin stands word step
  | arguments behind left => exact arguments_origin behind left step
  | field tabled => exact field_origin tabled step
  | fieldName tabled name => exact fieldName_origin tabled name step
  | declaring stands word =>
      obtain ⟨kind, text, position⟩ := token
      cases kind with
      | name =>
          cases step
          rw [List.append_assoc]
          exact .declared stands word ⟨text, position⟩
      | _ => cases step
  | counting stands word =>
      obtain ⟨kind, text, position⟩ := token
      cases kind with
      | name =>
          cases step
          rw [List.append_assoc]
          exact .counter stands word ⟨text, position⟩
      | _ => cases step
  | counter stands word name =>
      obtain ⟨kind, text, position⟩ := token
      cases kind with
      | symbol mark =>
          cases mark with
          | assign =>
              cases step
              rw [List.append_assoc]
              exact .operand (facing_first (.loopStart stands word name ⟨text, position⟩))
          | _ => cases step
      | _ => cases step
  | header headed =>
      obtain ⟨kind, text, position⟩ := token
      cases kind with
      | symbol mark =>
          cases mark with
          | leftParenthesis =>
              cases step
              exact .opened headed ⟨text, position⟩
          | _ => cases step
      | _ => cases step
  | opened headed left =>
      obtain ⟨kind, text, position⟩ := token
      rw [List.append_assoc]
      cases kind with
      | name =>
          cases step
          exact .parameter headed left ⟨text, position⟩ []
      | symbol mark =>
          cases mark with
          | rightParenthesis =>
              cases step
              exact .statement (around_stands (headed_around headed left .none ⟨text, position⟩))
          | _ => cases step
      | _ => cases step
  | parameter headed left first others =>
      obtain ⟨kind, text, position⟩ := token
      rw [List.append_assoc]
      cases kind with
      | symbol mark =>
          cases mark with
          | comma =>
              cases step
              exact .further headed left first others ⟨text, position⟩
          | rightParenthesis =>
              cases step
              rw [List.reverse_reverse]
              exact .statement (around_stands
                (headed_around headed left (.some first others) ⟨text, position⟩))
          | _ => cases step
      | _ => cases step
  | further headed left first others comma =>
      obtain ⟨kind, text, position⟩ := token
      cases kind with
      | name =>
          cases step
          have origin := Origin.parameter headed left first (others ++ [(comma, ⟨text, position⟩)])
          rw [names_append] at origin
          have words : (Parameters.some first (others ++ [(comma, ⟨text, position⟩)])).tokens =
              (Parameters.some first others).tokens ++
                [comma.token, ⟨.name, text, position⟩] :=
            congrArg (first.token :: ·) (moreTokens_append others _)
          rw [words] at origin
          simp only [List.append_assoc, List.cons_append, List.nil_append] at origin ⊢
          exact origin
      | _ => cases step
  | member behind mark =>
      obtain ⟨kind, text, position⟩ := token
      cases kind with
      | name =>
          cases step
          rw [List.append_assoc]
          refine .operator (behind_extend behind _ fun operand derivesTarget => ?_)
          obtain ⟨target, resolved, rfl, rfl⟩ := derivesTarget
          exact ⟨.dot target mark ⟨text, position⟩, resolved, rfl, rfl⟩
      | _ => cases step
  | fieldKey within derives right =>
      obtain ⟨kind, text, position⟩ := token
      cases kind with
      | symbol mark =>
          cases mark with
          | assign =>
              cases step
              have facing := facing_first (.keyed within derives right ⟨text, position⟩)
              simp only [List.append_assoc, List.cons_append, List.nil_append] at facing ⊢
              exact .operand facing
          | _ => cases step
      | _ => cases step
  | accepted => cases step

theorem start_origin : Origin start [] :=
  .statement (around_stands .chunk)

theorem reads_origin (origin : Origin state before) (reads : Reads state tokens next) :
    Origin next (before ++ tokens) := by
  induction tokens generalizing state before with
  | nil =>
      cases reads
      rw [List.append_nil]
      exact origin
  | cons token rest ih =>
      obtain ⟨middle, step, after⟩ := reads_uncons reads
      have whole := ih (feed_origin origin step) after
      rw [List.append_assoc] at whole
      exact whole

/-- What the reader accepts is derived. -/
theorem accepted_derives (reads : Reads start tokens (.accepted program)) :
    ∃ (block : List Token) (finish : Lexeme .finish), tokens = block ++ [finish.token] ∧
      Derives .block block program := by
  have origin := reads_origin start_origin reads
  cases origin with
  | accepted derives finish => exact ⟨_, finish, rfl, derives⟩

end LuaCore.Tree.Grammar
