import LuaCore.Proofs.Reading

/-!
The reader never runs into a dead end. From every state but an accepted one some tokens lead to an
accepted one, so that a token is refused as soon as no program starts with what was read.
-/

namespace LuaCore.Tree.Grammar

open Reader

/-- Some tokens lead from a state to an accepted one. -/
def Finishes (state : State) : Prop :=
  ∃ tokens program, Reads state tokens (.accepted program)

theorem finishes_step {state next : State} (token : Token) (step : feed state token = some next)
    (finishes : Finishes next) : Finishes state := by
  obtain ⟨tokens, program, reads⟩ := finishes
  exact ⟨token :: tokens, program, reads_cons step reads⟩

/-- A token of a certain kind, as nothing but its kind matters here. -/
def anyToken (kind : Token.Kind) : Token :=
  ⟨kind, "", {}⟩

-- Which tree the reader has built does not matter to what it can go on with. The induction is
-- therefore on the context alone, and says of each context that one token leads out of it.
/-- A block can be ended, whatever its statements are. -/
def Closable (outer : Context .block) : Prop :=
  ∀ before, ∃ token next, Closes token.kind ∧ feedClosing before outer token = some next ∧
    Finishes next

/-- An expression can be ended, whatever it is. -/
def Completable (outer : Context .expression) : Prop :=
  ∀ expression, ∃ token next, ¬ Continues 0 token.kind ∧
    feedComplete expression outer token = some next ∧ Finishes next

theorem finishes_statement {outer : Context .block} (closable : Closable outer) (before : Block) :
    Finishes (.statement before outer) := by
  obtain ⟨token, next, closes, step, finishes⟩ := closable before
  refine finishes_step token ?_ finishes
  exact (feedStatement_closes before outer token closes).trans step

theorem finishes_closing {outer : Context .block} (closable : Closable outer) (before : Block) :
    Finishes (.closing before outer) := by
  obtain ⟨token, next, _, step, finishes⟩ := closable before
  exact finishes_step token step finishes

theorem finishes_operator {outer : Context .expression} (completable : Completable outer)
    (operand : Expression) (pending : List Pending) :
    Finishes (.operator operand pending outer) := by
  obtain ⟨token, next, stops, step, finishes⟩ := completable (complete operand pending)
  refine finishes_step token ?_ finishes
  exact (feed_operator_complete operand pending outer token stops).trans step

theorem finishes_operand {outer : Context .expression} (completable : Completable outer)
    (pending : List Pending) : Finishes (.operand pending outer) :=
  finishes_step (anyToken (.keyword .nilWord)) rfl (finishes_operator completable .nil pending)

theorem end_closable {outer : Context .block}
    (ends : ∀ before, ∃ next, feedClosing before outer (anyToken (.keyword .endWord)) = some next ∧
      Finishes next) : Closable outer := by
  intro before
  obtain ⟨next, step, finishes⟩ := ends before
  exact ⟨_, next, by simp [anyToken, Closes], step, finishes⟩

theorem declaration_closable {outer : Context .block} (closable : Closable outer) (name : String)
    (parameters : List String) (before : Block) :
    Closable (.declaration name parameters before outer) :=
  end_closable fun _ => ⟨_, rfl, finishes_statement closable _⟩

theorem literal_closable {outer : Context .expression} (completable : Completable outer)
    (parameters : List String) (pending : List Pending) :
    Closable (.literal parameters pending outer) :=
  end_closable fun _ => ⟨_, rfl, finishes_operator completable _ pending⟩

theorem branch_closable {outer : Context .block} (closable : Closable outer) (earlier : Branches)
    (condition : Expression) (before : Block) :
    Closable (.branch earlier condition before outer) :=
  end_closable fun _ => ⟨_, rfl, finishes_statement closable _⟩

theorem otherwise_closable {outer : Context .block} (closable : Closable outer) (first : Branch)
    (others : List Branch) (before : Block) : Closable (.otherwise first others before outer) :=
  end_closable fun _ => ⟨_, rfl, finishes_statement closable _⟩

theorem rounds_closable {outer : Context .block} (closable : Closable outer) (counter : String)
    (initial limit : Expression) (step : Option Expression) (before : Block) :
    Closable (.rounds counter initial limit step before outer) :=
  end_closable fun _ => ⟨_, rfl, finishes_statement closable _⟩

theorem loopStep_completable {outer : Context .block} (closable : Closable outer)
    (counter : String) (initial limit : Expression) (before : Block) :
    Completable (.loopStep counter initial limit before outer) :=
  fun _ => ⟨anyToken (.keyword .doWord), _, id, rfl,
    finishes_statement (rounds_closable closable counter initial limit _ before) []⟩

theorem loopLimit_completable {outer : Context .block} (closable : Closable outer)
    (counter : String) (initial : Expression) (before : Block) :
    Completable (.loopLimit counter initial before outer) :=
  fun _ => ⟨anyToken (.keyword .doWord), _, id, rfl,
    finishes_statement (rounds_closable closable counter initial _ none before) []⟩

theorem loopStart_completable {outer : Context .block} (closable : Closable outer)
    (counter : String) (before : Block) :
    Completable (.loopStart counter before outer) :=
  fun initial => ⟨anyToken (.symbol .comma), _, id, rfl,
    finishes_operand (loopLimit_completable closable counter initial before) []⟩

theorem condition_completable {outer : Context .block} (closable : Closable outer)
    (earlier : Branches) (before : Block) : Completable (.condition earlier before outer) :=
  fun condition => ⟨anyToken (.keyword .thenWord), _, id, rfl,
    finishes_statement (branch_closable closable earlier condition before) []⟩

theorem evaluated_completable {outer : Context .block} (closable : Closable outer)
    (position : Position) (before : Block) : Completable (.evaluated position before outer) :=
  fun _ => ⟨anyToken (.symbol .semicolon), _, id, rfl, finishes_statement closable _⟩

theorem assigned_completable {outer : Context .block} (closable : Closable outer)
    (position : Position) (target : Expression) (before : Block) :
    Completable (.assigned position target before outer) :=
  fun _ => ⟨anyToken (.symbol .semicolon), _, id, rfl, finishes_statement closable _⟩

theorem declared_completable {outer : Context .block} (closable : Closable outer) (name : String)
    (before : Block) : Completable (.declared name before outer) :=
  fun _ => ⟨anyToken (.symbol .semicolon), _, id, rfl, finishes_statement closable _⟩

theorem returned_completable {outer : Context .block} (closable : Closable outer)
    (before : Block) : Completable (.returned before outer) :=
  fun _ => ⟨anyToken (.symbol .semicolon), _, id, rfl, finishes_closing closable _⟩

theorem positional_completable {outer : Context .expression} (completable : Completable outer)
    (earlier : List Field) (pending : List Pending) :
    Completable (.positional earlier pending outer) :=
  fun _ => ⟨anyToken (.symbol .rightBrace), _, id, rfl, finishes_operator completable _ pending⟩

theorem named_completable {outer : Context .expression} (completable : Completable outer)
    (earlier : List Field) (name : String) (pending : List Pending) :
    Completable (.named earlier name pending outer) :=
  fun _ => ⟨anyToken (.symbol .rightBrace), _, id, rfl, finishes_operator completable _ pending⟩

theorem keyed_completable {outer : Context .expression} (completable : Completable outer)
    (earlier : List Field) (key : Expression) (pending : List Pending) :
    Completable (.keyed earlier key pending outer) :=
  fun _ => ⟨anyToken (.symbol .rightBrace), _, id, rfl, finishes_operator completable _ pending⟩

theorem finishes_fieldKey {outer : Context .expression} (completable : Completable outer)
    (earlier : List Field) (key : Expression) (pending : List Pending) :
    Finishes (.fieldKey earlier key pending outer) :=
  finishes_step (anyToken (.symbol .assign)) rfl
    (finishes_operand (keyed_completable completable earlier key pending) [])

theorem fieldKey_completable {outer : Context .expression} (completable : Completable outer)
    (earlier : List Field) (pending : List Pending) :
    Completable (.fieldKey earlier pending outer) :=
  fun key => ⟨anyToken (.symbol .rightBracket), _, id, rfl,
    finishes_fieldKey completable earlier key pending⟩

theorem parentheses_completable {outer : Context .expression} (completable : Completable outer)
    (pending : List Pending) : Completable (.parentheses pending outer) :=
  fun _ => ⟨anyToken (.symbol .rightParenthesis), _, id, rfl,
    finishes_operator completable _ pending⟩

theorem key_completable {outer : Context .expression} (completable : Completable outer)
    (target : Expression) (pending : List Pending) : Completable (.key target pending outer) :=
  fun _ => ⟨anyToken (.symbol .rightBracket), _, id, rfl, finishes_operator completable _ pending⟩

theorem argument_completable {outer : Context .expression} (completable : Completable outer)
    (callee : Expression) (earlier : List Expression) (pending : List Pending) :
    Completable (.argument callee earlier pending outer) :=
  fun _ => ⟨anyToken (.symbol .rightParenthesis), _, id, rfl,
    finishes_operator completable _ pending⟩

def Leavable : {hole : Hole} → Context hole → Prop
  | .block, outer => Closable outer
  | .expression, outer => Completable outer

/-- Whatever surrounds a block or an expression can be completed. -/
theorem leavable {hole : Hole} (outer : Context hole) : Leavable outer := by
  induction outer with
  | chunk =>
      exact fun before => ⟨anyToken .finish, .accepted before.reverse, by simp [anyToken, Closes],
        rfl, [], before.reverse, reads_nil _⟩
  | declaration name parameters before _ ih => exact declaration_closable ih name parameters before
  | literal parameters pending _ ih => exact literal_closable ih parameters pending
  | branch earlier condition before _ ih => exact branch_closable ih earlier condition before
  | otherwise first others before _ ih => exact otherwise_closable ih first others before
  | rounds counter initial limit step before _ ih =>
      exact rounds_closable ih counter initial limit step before
  | evaluated position before _ ih => exact evaluated_completable ih position before
  | assigned position target before _ ih => exact assigned_completable ih position target before
  | declared name before _ ih => exact declared_completable ih name before
  | returned before _ ih => exact returned_completable ih before
  | condition earlier before _ ih => exact condition_completable ih earlier before
  | loopStart counter before _ ih => exact loopStart_completable ih counter before
  | loopLimit counter initial before _ ih => exact loopLimit_completable ih counter initial before
  | loopStep counter initial limit before _ ih =>
      exact loopStep_completable ih counter initial limit before
  | parentheses pending _ ih => exact parentheses_completable ih pending
  | key target pending _ ih => exact key_completable ih target pending
  | argument callee earlier pending _ ih => exact argument_completable ih callee earlier pending
  | positional earlier pending _ ih => exact positional_completable ih earlier pending
  | named earlier name pending _ ih => exact named_completable ih earlier name pending
  | fieldKey earlier pending _ ih => exact fieldKey_completable ih earlier pending
  | keyed earlier key pending _ ih => exact keyed_completable ih earlier key pending

theorem header_closable (header : Header) (parameters : List String) :
    Closable (header.body parameters) := by
  cases header with
  | declaration name before outer =>
      exact declaration_closable (leavable outer) name parameters before
  | literal pending outer => exact literal_closable (leavable outer) parameters pending

theorem finishes_parameter (header : Header) (parameters : List String) :
    Finishes (.parameter header parameters) :=
  finishes_step (anyToken (.symbol .rightParenthesis)) rfl
    (finishes_statement (header_closable header _) [])

theorem finishes_opened (header : Header) : Finishes (.opened header) :=
  finishes_step (anyToken (.symbol .rightParenthesis)) rfl
    (finishes_statement (header_closable header _) [])

theorem finishes_header (header : Header) : Finishes (.header header) :=
  finishes_step (anyToken (.symbol .leftParenthesis)) rfl (finishes_opened header)

theorem finishes_counter (name : String) (before : Block) (outer : Context .block) :
    Finishes (.counter name before outer) :=
  finishes_step (anyToken (.symbol .assign)) rfl
    (finishes_operand (loopStart_completable (leavable outer) name before) [])

/-- Every state can be completed, unless it is accepted already. -/
theorem finishes (state : State) (unfinished : ∀ program, state ≠ .accepted program) :
    Finishes state := by
  cases state with
  | statement before outer => exact finishes_statement (leavable outer) before
  | returning before outer =>
      exact finishes_step (anyToken (.symbol .semicolon)) rfl
        (finishes_closing (leavable outer) _)
  | closing before outer => exact finishes_closing (leavable outer) before
  | declaring before outer =>
      exact finishes_step (anyToken .name) rfl (finishes_step (anyToken (.symbol .semicolon)) rfl
        (finishes_statement (leavable outer) _))
  | declared name before outer =>
      exact finishes_step (anyToken (.symbol .semicolon)) rfl
        (finishes_statement (leavable outer) _)
  | function position before outer =>
      exact finishes_step (anyToken .name) rfl (finishes_header _)
  | counting before outer =>
      exact finishes_step (anyToken .name) rfl (finishes_counter _ before outer)
  | counter name before outer => exact finishes_counter name before outer
  | header header => exact finishes_header header
  | opened header => exact finishes_opened header
  | parameter header parameters => exact finishes_parameter header parameters
  | further header parameters =>
      exact finishes_step (anyToken .name) rfl (finishes_parameter header _)
  | operand pending outer => exact finishes_operand (leavable outer) pending
  | operator operand pending outer => exact finishes_operator (leavable outer) operand pending
  | member target pending outer =>
      exact finishes_step (anyToken .name) rfl (finishes_operator (leavable outer) _ pending)
  | arguments callee pending outer =>
      exact finishes_step (anyToken (.symbol .rightParenthesis)) rfl
        (finishes_operator (leavable outer) _ pending)
  | field earlier pending outer =>
      exact finishes_step (anyToken (.symbol .rightBrace)) rfl
        (finishes_operator (leavable outer) _ pending)
  | fieldName earlier name pending outer =>
      exact finishes_step (anyToken (.symbol .rightBrace)) rfl
        (finishes_operator (leavable outer) _ pending)
  | fieldKey earlier key pending outer =>
      exact finishes_fieldKey (leavable outer) earlier key pending
  | accepted program => exact absurd rfl (unfinished program)

end LuaCore.Tree.Grammar
