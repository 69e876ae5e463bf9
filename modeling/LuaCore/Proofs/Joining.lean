import LuaCore.Proofs.Accounting
import LuaCore.Proofs.Lines
import LuaCore.Proofs.Placement

/-!
Programs cut into chunks. A semicolon in a new line joins two texts to one whose program is that of
both. If the first one has no locals and no returns of its own, running the whole is running one
after the other: the scope that the first one leaves is the fresh one that the second one starts in.
-/

namespace LuaCore

open Evaluation Lexer Tree.Grammar

/-! Returns. -/

mutual

/-- The values of the returns of a statement. Functions have returns of their own. -/
def Statement.returnValues : Statement → List Expression
  | .returns value => [value]
  | .choose first others otherwise =>
      first.returnValues ++ (Branch.allReturnValues others ++ Block.returnValues? otherwise)
  | .loop _ _ _ _ body => Block.returnValues body
  | _ => []

def Branch.returnValues : Branch → List Expression
  | .mk _ body => Block.returnValues body

def Branch.allReturnValues : List Branch → List Expression
  | [] => []
  | branch :: rest => branch.returnValues ++ Branch.allReturnValues rest

def Block.returnValues : List Statement → List Expression
  | [] => []
  | statement :: rest => statement.returnValues ++ Block.returnValues rest

def Block.returnValues? : Option (List Statement) → List Expression
  | none => []
  | some body => Block.returnValues body

end

/-- A computation that never ends with the result of its activation. -/
def GoesOn (body : Eval Flow) : Prop :=
  ∀ machine value after, body machine ≠ .done (.result value) after

section

variable {α : Type} {call : Caller} {fuel : Nat}

theorem goesOn_next (scope : Scope) : GoesOn (Eval.pure (.next scope)) := by
  rintro machine value after ⟨⟩

theorem goesOn_fail (failure : Failure) : GoesOn (Eval.fail failure) := by
  rintro machine value after ⟨⟩

theorem goesOn_bind {first : Eval α} {next : α → Eval Flow} (rest : ∀ value, GoesOn (next value)) :
    GoesOn (Eval.bind first next) := by
  intro machine value after done
  obtain ⟨given, middle, _, done⟩ := done_bind done
  exact rest given middle value after done

/-- Behind a computation that goes on, what comes from its result does not matter. -/
theorem goesOn_then {first : Eval Flow} {next : Flow → Eval Flow} (goes : GoesOn first)
    (rest : ∀ scope, GoesOn (next (.next scope))) : GoesOn (Eval.bind first next) := by
  intro machine value after done
  obtain ⟨flow, middle, ended, done⟩ := done_bind done
  cases flow with
  | next scope => exact rest scope middle value after done
  | result given => exact goes machine given middle ended

theorem goesOn_rounds {body : Scope → Eval Flow} (goes : ∀ scope, GoesOn (body scope))
    (name : String) (limit step : Float) (bound : Nat) (counter : Float) (scope : Scope) :
    GoesOn (rounds body name limit step bound counter scope) := by
  induction bound generalizing counter scope with
  | zero => rintro machine value after ⟨⟩
  | succ bound ih =>
      rw [rounds]
      split
      · refine goesOn_bind fun scope => goesOn_then (goes scope) fun scope => ?_
        exact ih _ scope
      · exact goesOn_next scope

mutual

theorem goesOn_execute {statement : Statement} (scope : Scope)
    (none : statement.returnValues = []) : GoesOn (execute call fuel scope statement) := by
  unfold execute
  refine goesOn_bind fun _ => ?_
  cases statement with
  | assign target value =>
      refine goesOn_bind fun value => ?_
      cases target with
      | name name => exact goesOn_bind fun _ => goesOn_next _
      | dot target name =>
          exact goesOn_bind fun _ => goesOn_bind fun _ => goesOn_bind fun _ => goesOn_next _
      | index target key =>
          exact goesOn_bind fun _ => goesOn_bind fun _ => goesOn_bind fun _ => goesOn_bind fun _ =>
            goesOn_bind fun _ => goesOn_next _
      | _ => exact goesOn_fail _
  | declare name value => exact goesOn_bind fun _ => goesOn_bind fun _ => goesOn_next _
  | evaluate expression => exact goesOn_bind fun _ => goesOn_next _
  | returns value => cases none
  | function name parameters body => exact goesOn_bind fun _ => goesOn_bind fun _ => goesOn_next _
  | choose first others otherwise =>
      obtain ⟨condition, body⟩ := first
      obtain ⟨first, none⟩ := List.append_eq_nil_iff.mp none
      obtain ⟨others, last⟩ := List.append_eq_nil_iff.mp none
      refine goesOn_bind fun value => ?_
      split
      · exact goesOn_executeBlock scope first
      · refine goesOn_executeBranches scope ?_ others
        cases otherwise with
        | none => exact goesOn_next scope
        | some body => exact goesOn_executeBlock scope last
  | loop counter start limit step body =>
      refine goesOn_bind fun _ => goesOn_bind fun _ => goesOn_bind fun _ => goesOn_bind fun _ => ?_
      let round (scope : Scope) : Eval Flow := executeBlock call fuel scope body
      have looped (start limit step : Float) :
          GoesOn (Eval.bind (rounds round counter limit step fuel start scope) fun
            | .next _ => Eval.pure (.next scope)
            | .result value => Eval.pure (.result value)) :=
        goesOn_then (goesOn_rounds (fun scope => goesOn_executeBlock scope none) _ _ _ _ _ _)
          fun _ => goesOn_next scope
      cases step with
      | none => exact goesOn_bind fun _ => looped _ _ _
      | some step => exact goesOn_bind fun _ => goesOn_bind fun _ => looped _ _ _
  | strayExpression | strayField => exact goesOn_fail _

theorem goesOn_executeBlock {statements : List Statement} (scope : Scope)
    (none : Block.returnValues statements = []) :
    GoesOn (executeBlock call fuel scope statements) := by
  cases statements with
  | nil => exact goesOn_next scope
  | cons statement rest =>
      obtain ⟨first, others⟩ := List.append_eq_nil_iff.mp none
      exact goesOn_then (goesOn_execute scope first) fun scope => goesOn_executeBlock scope others

theorem goesOn_executeBranches {branches : List Branch} {otherwise : Eval Flow} (scope : Scope)
    (last : GoesOn otherwise) (none : Branch.allReturnValues branches = []) :
    GoesOn (executeBranches call fuel scope otherwise branches) := by
  cases branches with
  | nil => exact last
  | cons branch rest =>
      obtain ⟨condition, body⟩ := branch
      obtain ⟨first, others⟩ := List.append_eq_nil_iff.mp none
      refine goesOn_bind fun value => ?_
      split
      · exact goesOn_executeBlock scope first
      · exact goesOn_executeBranches scope last others

end

/-! Runs. -/

theorem executeBlock_append (first second : List Statement) (scope : Scope) :
    executeBlock call fuel scope (first ++ second) =
      Eval.bind (executeBlock call fuel scope first) fun
        | .next scope => executeBlock call fuel scope second
        | .result value => Eval.pure (.result value) := by
  induction first generalizing scope with
  | nil => rfl
  | cons statement rest ih =>
      change Eval.bind _ _ = Eval.bind (Eval.bind _ _) _
      rw [bind_assoc]
      congr 1
      funext flow
      cases flow with
      | next scope => exact ih scope
      | result value => rfl

end

-- Both hypotheses are needed: a local would be seen by what comes behind, and a result would keep
-- it from running at all.
/-- A program without locals and returns ends in the scope that it started in. -/
theorem executeBlock_kept {call : Caller} {fuel : Nat} {program : Block} {scope : Scope}
    {flow : Flow} {machine after : Machine} (noLocals : Block.locals program = [])
    (noReturns : Block.returnValues program = [])
    (done : executeBlock call fuel scope program machine = .done flow after) :
    flow = .next scope := by
  cases flow with
  | result value => exact absurd done (goesOn_executeBlock scope noReturns machine value after)
  | next later =>
      obtain ⟨added, same, named⟩ := executeBlock_extends done
      rw [noLocals] at named
      have none : added = [] :=
        List.eq_nil_iff_forall_not_mem.mpr fun binding member => absurd (named binding member) nofun
      rw [none, List.append_nil] at same
      cases scope
      cases later
      cases same
      rfl

theorem run_append {fuel : Nat} {first : Block} (second : Block)
    (noLocals : Block.locals first = []) (noReturns : Block.returnValues first = []) :
    Evaluation.run fuel (first ++ second) =
      Eval.bind (Evaluation.run fuel first) fun _ => Evaluation.run fuel second := by
  funext machine
  change Eval.bind (executeBlock (apply fuel) fuel {} (first ++ second)) _ machine =
    Eval.bind (Eval.bind (executeBlock (apply fuel) fuel {} first) _) _ machine
  rw [executeBlock_append, bind_assoc, bind_assoc]
  unfold Eval.bind
  cases ended : executeBlock (apply fuel) fuel {} first machine with
  | done flow after =>
      cases executeBlock_kept noLocals noReturns ended
      rfl
  | failed | exhausted => rfl

theorem run_steps {fuel : Nat} {program : Block} {machine after : Machine}
    (ends : (Evaluation.run fuel program machine).machine? = some after) :
    machine.steps ≤ after.steps := by
  let session : Session := ⟨machine, none⟩
  have ran : ∃ answer, session.run fuel program = some (answer, session.count after) := by
    unfold Session.run
    cases ended : Evaluation.run fuel program machine with
    | done | failed =>
        rw [ended] at ends
        cases ends
        exact ⟨_, rfl⟩
    | exhausted =>
        rw [ended] at ends
        cases ends
  obtain ⟨answer, ran⟩ := ran
  exact (run_counts ran).1.steps

/-- Statements are counted in one run as in two. -/
theorem count_twice {session : Session} {middle last : Machine}
    (first : session.machine.steps ≤ middle.steps) (second : middle.steps ≤ last.steps) :
    (session.count middle).count last = session.count last := by
  unfold Session.count
  simp only [Option.getD_some, Session.mk.injEq, Option.some.injEq, true_and]
  omega

theorem session_append {first : Block} (second : Block) (noLocals : Block.locals first = [])
    (noReturns : Block.returnValues first = []) (fuel : Nat) (session : Session) :
    session.run fuel (first ++ second) =
      match session.run fuel first with
      | some (.ok _, next) => next.run fuel second
      | other => other := by
  unfold Session.run
  rw [run_append second noLocals noReturns]
  unfold Eval.bind
  cases ended : Evaluation.run fuel first session.machine with
  | done value middle =>
      have front := run_steps (congrArg Outcome.machine? ended)
      have kept : (session.count middle).machine = middle := rfl
      cases ended' : Evaluation.run fuel second middle with
      | done | failed =>
          have behind := run_steps (congrArg Outcome.machine? ended')
          simp only [kept, ended', count_twice front behind]
      | exhausted => simp only [kept, ended']
  | failed | exhausted => rfl

/-! Texts. -/

namespace Tree.Grammar

/-- Statements in front of others. -/
def Derivation.follow : {category : Category} → Derivation category → Derivation .statements →
    Derivation .statements
  | _, moreStatements first others, behind => .moreStatements first (others.follow behind)
  | _, _, behind => behind

theorem tokens_follow (behind : Derivation .statements) : (statements : Derivation .statements) →
    (statements.follow behind).tokens = statements.tokens ++ behind.tokens
  | .noStatements => rfl
  | .moreStatements first others => by
      rw [Derivation.follow, Derivation.tokens, tokens_follow behind others, Derivation.tokens,
        List.append_assoc]

theorem tree_follow (behind : Derivation .statements) : (statements : Derivation .statements) →
    (statements.follow behind).tree = statements.tree ++ behind.tree
  | .noStatements => rfl
  | .moreStatements first others => by
      rw [Derivation.follow, Derivation.tree, tree_follow behind others, Derivation.tree,
        List.append_assoc]

/-- Statements may be followed by what continues no expression. -/
theorem resolved_follow {behind : Derivation .statements} (resolved : behind.Resolved)
    (apart : ∀ token ∈ behind.tokens.head?, ¬ IsGlue token.kind) :
    (statements : Derivation .statements) → statements.Resolved →
      (statements.follow behind).Resolved
  | .noStatements, _ => resolved
  | .moreStatements first others, ⟨front, rest, stops⟩ => by
      refine ⟨front, resolved_follow resolved apart others rest, ?_⟩
      intro ends token member
      rw [tokens_follow, List.head?_append, Option.mem_def, Option.or_eq_some_iff] at member
      rcases member with member | ⟨_, member⟩
      · exact stops ends token member
      · exact apart token member

/-- Statements, a semicolon and a block. -/
def joined (first : Derivation .statements) (stop : Mark .semicolon) :
    Derivation .block → Derivation .block
  | .block statements closing =>
      .block (first.follow (.moreStatements (.empty stop) statements)) closing

theorem tokens_joined (first : Derivation .statements) (stop : Mark .semicolon)
    (second : Derivation .block) :
    (joined first stop second).tokens = first.tokens ++ stop.token :: second.tokens := by
  obtain ⟨statements, closing⟩ := second
  change (first.follow _).tokens ++ closing.tokens = _
  rw [tokens_follow, List.append_assoc]
  rfl

end Tree.Grammar

theorem means_joined {first : Derivation .statements} (stop : Mark .semicolon)
    {second : Derivation .block} {program program' : Block} (means : Means program first)
    (means' : Means program' second) : (joined first stop second).Resolved ∧
      Block.ofTree (joined first stop second).tree = .ok (program ++ program') := by
  obtain ⟨resolved, read⟩ := means
  obtain ⟨resolved', read'⟩ := means'
  obtain ⟨statements, closing⟩ := second
  let behind : Derivation .statements := .moreStatements (.empty stop) statements
  have resolvedBehind : behind.Resolved := ⟨trivial, resolved'.1, fun ends => ends.elim⟩
  have apart : ∀ token ∈ behind.tokens.head?, ¬ IsGlue token.kind := by
    rintro _ ⟨⟩ (glue | glue) <;> cases glue
  refine ⟨⟨resolved_follow resolvedBehind apart first resolved, resolved'.2⟩, ?_⟩
  have tree : (joined first stop (.block statements closing)).tree =
      first.tree ++ (Derivation.block statements closing).tree := by
    change (first.follow behind).tree ++ closing.tree = _
    rw [tree_follow, List.append_assoc]
    rfl
  rw [tree, ofTree_append]
  exact bind_ok read (bind_ok read' rfl)

theorem returnValues_append (first second : List Statement) :
    Block.returnValues (first ++ second) =
      Block.returnValues first ++ Block.returnValues second := by
  induction first with
  | nil => rfl
  | cons statement rest ih =>
      rw [List.cons_append, Block.returnValues, ih, Block.returnValues, List.append_assoc]

theorem returns_last {trees : Tree.Block} {value : Option Tree.Expression} {program : Block}
    (read : Block.ofTree (trees ++ [.returns value]) = .ok program) :
    Block.returnValues program ≠ [] := by
  rw [ofTree_append] at read
  cases front : Block.ofTree trees with
  | error =>
      rw [front] at read
      cases read
  | ok statements =>
      cases last : Expression.ofTree? value with
      | error =>
          simp only [front, Block.ofTree, Statement.ofTree, last] at read
          cases read
      | ok value =>
          simp only [front, Block.ofTree, Statement.ofTree, last] at read
          cases read
          rw [returnValues_append]
          simp [Block.returnValues, Statement.returnValues]

/-- A program without returns has none at its end. -/
theorem open_block {statements : Derivation .statements} {closing : Derivation .closing}
    {program : Block} (noReturns : Block.returnValues program = [])
    (means : Means program (.block statements closing)) :
    closing = .noReturn ∧ Means program statements := by
  obtain ⟨⟨resolved, _⟩, read⟩ := means
  change Block.ofTree (statements.tree ++ closing.tree) = .ok program at read
  cases closing with
  | noReturn =>
      rw [Derivation.tree, List.append_nil] at read
      exact ⟨rfl, resolved, read⟩
  | returnsNothing | returns => exact absurd noReturns (returns_last read)

/-- The tokens of two texts with a semicolon in a new line between them. -/
theorem lexed_joined {first second : String} {tokens others : List Token}
    (lexed : Lexed first tokens) (lexed' : Lexed second others) (closed : Closed {} first.toList) :
    ∃ (stop : Mark .semicolon) (start : Position),
      Lexed (first ++ "\n;" ++ second)
        (tokens ++ stop.token :: others.map (Token.move start.behind)) := by
  obtain ⟨_, lexes⟩ := lexed
  obtain ⟨last, lexes'⟩ := lexed'
  have solid : ∀ c ∈ (';' :: second.toList).head?, ¬ isBlank c := by
    rintro c ⟨⟩
    decide
  obtain ⟨middle, front⟩ := lexes_line lexes closed solid
  have cuts : Cuts [';'] [.mark .semicolon] second.toList := @cuts_stop .semicolon trivial _
  obtain ⟨row, start, stops, said⟩ := cuts middle
  obtain ⟨token, rfl, form⟩ := List.map_eq_singleton_iff.mp said
  obtain ⟨stop, rfl⟩ := lexeme_exists (congrArg Form.kind form)
  have behind := lexes_behind start lexes' ⟨Nat.le_refl 1, Nat.le_refl 1⟩
  rw [Position.behind_start] at behind
  have whole := lexes_append front (lexes_append stops behind)
  have text : (first ++ "\n;" ++ second).toList =
      first.toList ++ '\n' :: ([';'] ++ second.toList) := by simp
  refine ⟨stop, start, start.behind last, ?_⟩
  rw [text]
  exact whole

/-- A semicolon in a new line joins two texts. -/
theorem parse_joined {first second : String} {program program' : Block}
    (parsed : parse first = .ok program) (parsed' : parse second = .ok program')
    (noReturns : Block.returnValues program = []) (closed : Closed {} first.toList) :
    parse (first ++ "\n;" ++ second) = .ok (program ++ program') := by
  obtain ⟨derivation, lexed, resolved, _, read⟩ := (parse_exact first program).mp parsed
  obtain ⟨derivation', lexed', resolved', _, read'⟩ := (parse_exact second program').mp parsed'
  obtain ⟨statements, closing⟩ := derivation
  obtain ⟨rfl, means⟩ := open_block noReturns ⟨resolved, read⟩
  obtain ⟨stop, start, whole⟩ := lexed_joined lexed lexed' closed
  -- The second text stands further on than by itself, and still means the same.
  have moved := means_move start.behind (show Means program' derivation' from ⟨resolved', read'⟩)
  obtain ⟨resolved, read⟩ := means_joined stop means moved
  have none : (Derivation.block statements .noReturn).tokens = statements.tokens :=
    List.append_nil _
  rw [none, ← tokens_move, ← tokens_joined] at whole
  exact derivation_parses whole resolved read

/-- A script can be cut into chunks at a semicolon in a new line, if what is in front of it has no
locals and returns of its own and no comment that could still be closed: the program is that of both
texts, and running it is running the second one after the first, unless that fails. -/
theorem execute_chunks {first second : String} {program program' : Block}
    (parsed : parse first = .ok program) (parsed' : parse second = .ok program')
    (noLocals : Block.locals program = []) (noReturns : Block.returnValues program = [])
    (closed : Closed {} first.toList) :
    parse (first ++ "\n;" ++ second) = .ok (program ++ program') ∧
    ∀ fuel (session : Session), session.execute fuel (first ++ "\n;" ++ second) =
      match session.execute fuel first with
      | some (.ok _, next) => next.execute fuel second
      | other => other := by
  have whole := parse_joined parsed parsed' noReturns closed
  refine ⟨whole, ?_⟩
  intro fuel session
  have executed (session : Session) {source : String} {block : Block}
      (found : parse source = .ok block) : session.execute fuel source =
        (session.run fuel block).map fun next => (next.1.mapError .failure, next.2) := by
    unfold Session.execute
    rw [found]
  rw [executed session whole, executed session parsed, session_append program' noLocals noReturns]
  cases session.run fuel program with
  | none => rfl
  | some answered =>
      obtain ⟨answer, next⟩ := answered
      cases answer with
      | error => rfl
      | ok value => exact (executed next parsed').symm

/-- Without the semicolon the second line would call what stands in front of the comment. -/
theorem execute_chunks_comment :
    let first := "x = y -- called?"
    let second := "(x)"
    let program : Block := [.assign (.name "x") (.name "y")]
    let program' : Block := [.evaluate (.name "x")]
    parse first = .ok program ∧ parse second = .ok program' ∧ Block.locals program = [] ∧
    Block.returnValues program = [] ∧ Closed {} first.toList ∧
    parse (first ++ "\n;" ++ second) = .ok (program ++ program') ∧
    ∃ middle next, (Session.bare 0).execute 1 first = some (.ok .nil, middle) ∧
      middle.execute 1 second = some (.ok .nil, next) ∧
      (Session.bare 0).execute 1 (first ++ "\n;" ++ second) = some (.ok .nil, next) := by
  intro first second program program'
  have parsed : parse first = .ok program := by cbv
  have parsed' : parse second = .ok program' := by cbv
  have closed : Closed {} first.toList := closed_plain (by cbv)
  obtain ⟨whole, runs⟩ := execute_chunks parsed parsed' rfl rfl closed
  refine ⟨parsed, parsed', rfl, rfl, closed, whole, ?_⟩
  have ran : ∃ middle, (Session.bare 0).execute 1 first = some (.ok .nil, middle) := by
    unfold Session.execute
    rw [parsed]
    exact ⟨_, rfl⟩
  obtain ⟨middle, ran⟩ := ran
  have ran' : ∃ next, middle.execute 1 second = some (.ok .nil, next) := by
    unfold Session.execute at ran ⊢
    rw [parsed] at ran
    cases ran
    rw [parsed']
    exact ⟨_, rfl⟩
  obtain ⟨next, ran'⟩ := ran'
  refine ⟨middle, next, ran, ran', ?_⟩
  rw [runs, ran]
  exact ran'

end LuaCore
