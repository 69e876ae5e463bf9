import LuaCore.Proofs.Naming

/-!
Runs with numbers in place of names. If a name has the same number whenever its negation is
evaluated, the program with that number behind the minus signs does the same as the one with the
name. The two runs are followed activity by activity, as the machine has to be known on which a name
is read.
-/

namespace LuaCore

open Evaluation

variable {constants : String → Option Float}

/-! Activities alongside each other. -/

namespace Activity

/-- Whenever the negation of one of the names is evaluated in the course of the activity, the name
has its number. -/
def Holds (constants : String → Option Float) (activity : Activity) : Prop :=
  ∀ fuel machine scope outer name value, constants name = some value →
    Visits activity ⟨fuel, machine, scope :: outer, .evaluate (Expression.name name).negate⟩ →
      machine.lookup scope name = .number value

theorem holds_enters {activity inner : Activity} (holds : activity.Holds constants)
    (enters : Enters activity inner) : inner.Holds constants :=
  fun fuel machine scope outer name value known visits =>
    holds fuel machine scope outer name value known (enters_visits enters visits)

/-- What is done with numbers in place of names ends as the activity does. -/
def Settled (constants : String → Option Float) : Activity → Prop
  | ⟨fuel, other, _, .apply function arguments⟩ => ∀ ⦃machine⦄,
      machine.Settles constants other →
        (Bond.settled constants).Ends (Evaluation.apply fuel function arguments machine)
          (Evaluation.apply fuel function arguments other)
  | ⟨fuel, other, scope :: _, .evaluate expression'⟩ => ∀ ⦃machine expression⦄,
      machine.Settles constants other → Expression.Settles constants expression expression' →
        (Bond.settled constants).Ends (Evaluation.evaluate (apply fuel) fuel scope expression machine)
          (Evaluation.evaluate (apply fuel) fuel scope expression' other)
  | ⟨fuel, other, scope :: _, .evaluateAll expressions'⟩ => ∀ ⦃machine expressions⦄,
      machine.Settles constants other →
      List.Forall₂ (Expression.Settles constants) expressions expressions' →
        (Bond.settled constants).Ends
          (Evaluation.evaluateAll (apply fuel) fuel scope expressions machine)
          (Evaluation.evaluateAll (apply fuel) fuel scope expressions' other)
  | ⟨fuel, other, scope :: _, .fill id position fields'⟩ => ∀ ⦃machine fields⦄,
      machine.Settles constants other → List.Forall₂ (Field.Settles constants) fields fields' →
        (Bond.settled constants).Ends (fillTable (apply fuel) fuel scope id position fields machine)
          (fillTable (apply fuel) fuel scope id position fields' other)
  | ⟨fuel, other, scope :: _, .execute statement'⟩ => ∀ ⦃machine statement⦄,
      machine.Settles constants other → Statement.Settles constants statement statement' →
        (Bond.settled constants).Ends (Evaluation.execute (apply fuel) fuel scope statement machine)
          (Evaluation.execute (apply fuel) fuel scope statement' other)
  | ⟨fuel, other, scope :: _, .executeBlock body'⟩ => ∀ ⦃machine body⦄,
      machine.Settles constants other → Block.Settles constants body body' →
        (Bond.settled constants).Ends (Evaluation.executeBlock (apply fuel) fuel scope body machine)
          (Evaluation.executeBlock (apply fuel) fuel scope body' other)
  | ⟨fuel, other, scope :: _, .executeBranches otherwise' branches'⟩ =>
      ∀ ⦃machine otherwise branches⦄, machine.Settles constants other →
      Option.Rel (Block.Settles constants) otherwise otherwise' →
      List.Forall₂ (Branch.Settles constants) branches branches' →
        (Bond.settled constants).Ends
          (Evaluation.executeBranches (apply fuel) fuel scope
            (executeOtherwise (apply fuel) fuel scope otherwise) branches machine)
          (Evaluation.executeBranches (apply fuel) fuel scope
            (executeOtherwise (apply fuel) fuel scope otherwise') branches' other)
  | ⟨fuel, other, scope :: _, .rounds body' name limit step bound counter⟩ => ∀ ⦃machine body⦄,
      machine.Settles constants other → Block.Settles constants body body' →
        (Bond.settled constants).Ends
          (Evaluation.rounds (fun scope => Evaluation.executeBlock (apply fuel) fuel scope body)
            name limit step bound counter scope machine)
          (Evaluation.rounds (fun scope => Evaluation.executeBlock (apply fuel) fuel scope body')
            name limit step bound counter scope other)
  | _ => True

end Activity

open Activity Bond

section

variable {fuel : Nat} {machine other : Machine} {scope : Scope} {outer : List Scope}

theorem evaluate_settled {expression expression' : Expression}
    (machines : machine.Settles constants other)
    (settles : expression.Settles constants expression')
    (holds : Holds constants ⟨fuel, other, scope :: outer, .evaluate expression'⟩)
    (inside : ∀ inner, Enters ⟨fuel, other, scope :: outer, .evaluate expression'⟩ inner →
      inner.Settled constants) :
    (Bond.settled constants).Ends (evaluate (apply fuel) fuel scope expression machine)
      (evaluate (apply fuel) fuel scope expression' other) := by
  cases settles with
  | @settled name value known signs =>
      have held := holds _ _ _ _ _ _ known (visits_negation fuel other scope outer name signs)
      have given : evaluate (apply fuel) fuel scope (.name name) other =
          .done (.number value) other := congrArg (Outcome.done · other) held
      rw [evaluate_iterate given, evaluate_iterate rfl]
      exact .done _ machines
  | number | string | boolean | nil => exact .done _ machines
  | name name => exact mirrors_lookup scope name _ _ machines
  | table fields =>
      rw [evaluate, evaluate]
      refine ends_bind (mirrors_newTable _ _ machines) fun id after after' given machines => ?_
      cases given
      refine ends_bind (inside _ (.part .fields) machines fields) fun _ _ _ _ machines => ?_
      exact .done _ machines
  | binary operation left right =>
      refine ends_bind (inside _ (.part .lhs) machines left) fun lhs _ _ gives machines => ?_
      refine ends_bind (inside _ (.part (.rhs gives)) machines right) fun rhs _ _ _ machines => ?_
      exact mirrors_operate operation lhs rhs _ _ machines
  | call called given =>
      refine ends_bind (inside _ (.part .callee) machines called) fun value _ _ gives machines => ?_
      cases value with
      | function id =>
          refine ends_bind (inside _ (.part (.arguments gives)) machines given)
            fun values _ _ given machines => ?_
          exact inside _ (.call gives given) machines
      | _ => exact mirrors_misuse _ _ _ _ machines
  | dot name settles =>
      refine ends_bind (inside _ (.part .dotted) machines settles) fun value _ _ _ machines => ?_
      refine mirrors_bind (mirrors_requireTable value) (fun id => ?_) _ _ machines
      exact mirrors_readTable id (.name name)
  | index settles asked =>
      refine ends_bind (inside _ (.part .indexed) machines settles)
        fun value _ _ gives machines => ?_
      refine ends_table value machines fun id same => ?_
      cases same
      refine ends_bind (inside _ (.part (.key gives)) machines asked)
        fun value _ _ _ machines => ?_
      refine mirrors_requireKey value (fun key _ => ?_) _ _ machines
      exact mirrors_readTable id key
  | function parameters settles => exact mirrors_newFunction (.closure settles) _ _ machines
  | strayStatement | strayField => exact mirrors_fail rfl _ _ machines

theorem evaluateAll_settled {expressions expressions' : List Expression}
    (machines : machine.Settles constants other)
    (settles : List.Forall₂ (Expression.Settles constants) expressions expressions')
    (inside : ∀ inner, Enters ⟨fuel, other, scope :: outer, .evaluateAll expressions'⟩ inner →
      inner.Settled constants) :
    (Bond.settled constants).Ends (evaluateAll (apply fuel) fuel scope expressions machine)
      (evaluateAll (apply fuel) fuel scope expressions' other) := by
  cases settles with
  | nil => exact .done _ machines
  | cons first others =>
      refine ends_bind (inside _ (.part .first) machines first) fun value _ _ gives machines => ?_
      refine ends_bind (inside _ (.part (.others gives)) machines others)
        fun values _ _ _ machines => ?_
      exact .done _ machines

theorem fill_settled {id position : Nat} {fields fields' : List Field}
    (machines : machine.Settles constants other)
    (settles : List.Forall₂ (Field.Settles constants) fields fields')
    (inside : ∀ inner, Enters ⟨fuel, other, scope :: outer, .fill id position fields'⟩ inner →
      inner.Settled constants) :
    (Bond.settled constants).Ends (fillTable (apply fuel) fuel scope id position fields machine)
      (fillTable (apply fuel) fuel scope id position fields' other) := by
  cases settles with
  | nil => exact .done _ machines
  | cons first others =>
      cases first with
      | positional settles =>
          refine ends_bind (inside _ (.part .positional) machines settles)
            fun given _ _ gives machines => ?_
          exact inside _ (.part (.afterPositional gives))
            ((Bond.settled constants).setTable id given machines (.inr ⟨position, trivial, rfl⟩))
            others
      | named name settles =>
          refine ends_bind (inside _ (.part .named) machines settles)
            fun given _ _ gives machines => ?_
          exact inside _ (.part (.afterNamed gives))
            ((Bond.settled constants).setTable id given machines (.inl ⟨.string name, rfl⟩)) others
      | keyed asked settles =>
          refine ends_bind (inside _ (.part .fieldKey) machines asked)
            fun value _ _ gives machines => ?_
          refine ends_key value machines fun key stands => ?_
          refine ends_bind (inside _ (.part (.keyed gives stands)) machines settles)
            fun given _ _ gives' machines => ?_
          exact inside _ (.part (.afterKeyed gives stands gives'))
            ((Bond.settled constants).setTable id given machines (.inl ⟨value, stands⟩)) others

theorem ends_begun {bond : Bond} {rest rest' : Unit → Eval Flow} {summary summary' : String}
    (ends : bond.Ends (rest () (machine.begin summary)) (rest' () (other.begin summary'))) :
    bond.Ends (Eval.bind (Eval.modify fun machine => machine.begin summary) rest machine)
      (Eval.bind (Eval.modify fun machine => machine.begin summary') rest' other) :=
  ends

theorem branch_settled {condition condition' : Expression} {body body' : Block}
    {others others' : List Branch} {otherwise otherwise' : Option Block} {task : Task}
    {start : Machine} (machines : machine.Settles constants start)
    (asked : condition.Settles constants condition')
    (settles : Block.Settles constants body body')
    (further : List.Forall₂ (Branch.Settles constants) others others')
    (last : Option.Rel (Block.Settles constants) otherwise otherwise')
    (inside : ∀ inner, Enters ⟨fuel, other, scope :: outer, task⟩ inner → inner.Settled constants)
    (asks : Part fuel scope other task start (.evaluate condition'))
    (chosen : ∀ value after, Gives fuel scope start condition' value after → value.isTruthy →
      Part fuel scope other task after (.executeBlock body'))
    (passed : ∀ value after, Gives fuel scope start condition' value after → ¬ value.isTruthy →
      Part fuel scope other task after (.executeBranches otherwise' others')) :
    (Bond.settled constants).Ends
      (Eval.bind (evaluate (apply fuel) fuel scope condition) (fun value =>
        if value.isTruthy then executeBlock (apply fuel) fuel scope body
        else executeBranches (apply fuel) fuel scope
          (executeOtherwise (apply fuel) fuel scope otherwise) others) machine)
      (Eval.bind (evaluate (apply fuel) fuel scope condition') (fun value =>
        if value.isTruthy then executeBlock (apply fuel) fuel scope body'
        else executeBranches (apply fuel) fuel scope
          (executeOtherwise (apply fuel) fuel scope otherwise') others') start) := by
  refine ends_bind (inside _ (.part asks) machines asked) fun value _ _ gives machines => ?_
  by_cases truthy : value.isTruthy
  · rw [if_pos truthy, if_pos truthy]
    exact inside _ (.part (chosen value _ gives truthy)) machines settles
  · rw [if_neg truthy, if_neg truthy]
    exact inside _ (.part (passed value _ gives truthy)) machines last further

theorem execute_settled {statement statement' : Statement}
    (machines : machine.Settles constants other)
    (settles : statement.Settles constants statement')
    (inside : ∀ inner, Enters ⟨fuel, other, scope :: outer, .execute statement'⟩ inner →
      inner.Settled constants) :
    (Bond.settled constants).Ends (execute (apply fuel) fuel scope statement machine)
      (execute (apply fuel) fuel scope statement' other) := by
  have begun := settles_begin machines (settles_summary settles)
  cases settles with
  | @assign target target' _ _ aims settles =>
      rw [execute, execute]
      refine ends_begun ?_
      refine ends_bind (inside _ (.part .assigned) begun settles)
        fun value _ _ gives between => ?_
      cases aims with
      | name name =>
          refine mirrors_bind (mirrors_assignName scope name value) (fun _ => ?_) _ _ between
          exact mirrors_pure _
      | dot name settles =>
          refine ends_bind (inside _ (.part (.dotTarget gives)) between settles)
            fun object _ _ _ behind => ?_
          refine mirrors_bind (mirrors_requireTable object) (fun id => ?_) _ _ behind
          exact mirrors_bind (mirrors_writeTable value id (.inl ⟨.string name, rfl⟩)) fun _ =>
            mirrors_pure _
      | index settles asked =>
          refine ends_bind (inside _ (.part (.indexTarget gives)) between settles)
            fun object _ _ gives' between => ?_
          refine ends_table object between fun id same => ?_
          cases same
          refine ends_bind (inside _ (.part (.indexKey gives gives')) between asked)
            fun key _ _ _ behind => ?_
          refine mirrors_requireKey key (fun key within => ?_) _ _ behind
          exact mirrors_bind (mirrors_writeTable value id within) fun _ => mirrors_pure _
      | stray stray =>
          cases target with
          | name | dot | index => cases stray
          | _ => exact mirrors_fail rfl _ _ between
  | declare name settles =>
      rw [execute, execute]
      refine ends_begun ?_
      refine ends_bind (inside _ (.part .declared) begun settles) fun value _ _ _ behind => ?_
      exact mirrors_bind (mirrors_bindName scope name value) (fun _ => mirrors_pure _) _ _ behind
  | evaluate settles =>
      rw [execute, execute]
      refine ends_begun ?_
      refine ends_bind (inside _ (.part .evaluated) begun settles) fun _ _ _ _ behind => ?_
      exact .done _ behind
  | returns settles =>
      rw [execute, execute]
      refine ends_begun ?_
      refine ends_bind (inside _ (.part .returned) begun settles) fun _ _ _ _ behind => ?_
      exact .done _ behind
  | function name parameters settles =>
      rw [execute, execute]
      refine ends_begun ?_
      refine mirrors_bind (mirrors_newFunction (.closure settles)) (fun function => ?_) _ _ begun
      exact mirrors_bind (mirrors_putGlobal name function) fun _ => mirrors_pure _
  | choose settles further last =>
      cases settles with
      | mk asked settles =>
          rw [execute_choose, execute_choose]
          exact ends_begun (branch_settled begun asked settles further last inside .condition
            (fun _ _ gives truthy => .chosen gives truthy)
            fun _ _ gives falsy => .passed gives falsy)
  | loop counter first last width settles =>
      rw [execute, execute]
      refine ends_begun ?_
      refine ends_bind (inside _ (.part .start) begun first) fun value _ _ gives between => ?_
      refine ends_number value _ between fun first same => ?_
      cases same
      refine ends_bind (inside _ (.part (.limit gives)) between last)
        fun value _ _ gives' between' => ?_
      refine ends_number value _ between' fun last same => ?_
      cases same
      cases width with
      | none =>
          refine ends_bind (.done 1 between') fun _ _ _ given behind => ?_
          cases given
          refine ends_bind (inside _ (.loop (.byOne gives gives')) behind settles)
            fun flow _ _ _ behind => ?_
          cases flow <;> exact .done _ behind
      | some width =>
          refine ends_bind (inside _ (.part (.step gives gives')) between' width)
            fun value _ _ gives'' behind => ?_
          refine ends_number value _ behind fun width same => ?_
          cases same
          refine ends_bind (inside _ (.loop (.byStep gives gives' gives'')) behind settles)
            fun flow _ _ _ behind => ?_
          cases flow <;> exact .done _ behind
  | strayExpression | strayField =>
      rw [execute]
      exact ends_begun (mirrors_fail rfl _ _ begun)

theorem executeBlock_settled {body body' : Block} (machines : machine.Settles constants other)
    (settles : Block.Settles constants body body')
    (inside : ∀ inner, Enters ⟨fuel, other, scope :: outer, .executeBlock body'⟩ inner →
      inner.Settled constants) :
    (Bond.settled constants).Ends (executeBlock (apply fuel) fuel scope body machine)
      (executeBlock (apply fuel) fuel scope body' other) := by
  cases settles with
  | nil => exact .done _ machines
  | cons first others =>
      refine ends_bind (inside _ (.part .statement) machines first)
        fun flow _ _ executed machines => ?_
      cases flow with
      | next next => exact inside _ (.following executed) machines others
      | result value => exact .done _ machines

theorem executeBranches_settled {otherwise otherwise' : Option Block}
    {branches branches' : List Branch} (machines : machine.Settles constants other)
    (last : Option.Rel (Block.Settles constants) otherwise otherwise')
    (settles : List.Forall₂ (Branch.Settles constants) branches branches')
    (inside : ∀ inner,
      Enters ⟨fuel, other, scope :: outer, .executeBranches otherwise' branches'⟩ inner →
        inner.Settled constants) :
    (Bond.settled constants).Ends
      (executeBranches (apply fuel) fuel scope (executeOtherwise (apply fuel) fuel scope otherwise)
        branches machine)
      (executeBranches (apply fuel) fuel scope (executeOtherwise (apply fuel) fuel scope otherwise')
        branches' other) := by
  cases settles with
  | nil =>
      cases last with
      | none => exact .done _ machines
      | some settles => exact inside _ (.part .otherwise) machines settles
  | cons first further =>
      cases first with
      | mk asked settles =>
          exact branch_settled machines asked settles further last inside .nextCondition
            (fun _ _ gives truthy => .nextChosen gives truthy)
            fun _ _ gives falsy => .nextPassed gives falsy

theorem rounds_settled {body body' : Block} {name : String} {limit step counter : Float}
    {bound : Nat} (machines : machine.Settles constants other)
    (settles : Block.Settles constants body body')
    (inside : ∀ inner,
      Enters ⟨fuel, other, scope :: outer, .rounds body' name limit step bound counter⟩ inner →
        inner.Settled constants) :
    (Bond.settled constants).Ends
      (rounds (fun scope => executeBlock (apply fuel) fuel scope body) name limit step bound counter
        scope machine)
      (rounds (fun scope => executeBlock (apply fuel) fuel scope body') name limit step bound counter
        scope other) := by
  cases bound with
  | zero => exact .exhausted
  | succ bound =>
      rw [rounds, rounds]
      by_cases within : counter ≤ limit
      · rw [if_pos within, if_pos within]
        refine ends_bind (mirrors_bindName scope name _ _ _ machines)
          fun _ _ _ given machines => ?_
        cases given
        refine ends_bind (inside _ (.round within) machines settles)
          fun flow _ _ executed machines => ?_
        cases flow with
        | next next => exact inside _ (.nextRound within executed) machines settles
        | result value => exact .done _ machines
      · rw [if_neg within, if_neg within]
        exact .done _ machines

theorem native_settled {scopes : List Scope} {id : Nat} {name : String} {native : Native}
    {arguments : List Value} (machines : machine.Settles constants other)
    (found : other.callable id = .native name native)
    (inside : ∀ inner, Enters ⟨fuel + 1, other, scopes, .apply (.function id) arguments⟩ inner →
      inner.Settled constants) :
    (Bond.settled constants).Ends (native.run (apply fuel) arguments machine)
      (native.run (apply fuel) arguments other) := by
  have idle : (Bond.settled constants).CallsMirror (fun _ _ => Eval.exhaust) fun _ _ =>
      Eval.exhaust := fun _ _ => mirrors_exhaust
  cases native with
  | twice =>
      rcases arguments with _ | ⟨function, _ | ⟨value, rest⟩⟩
      · exact mirrors_fail rfl _ _ machines
      · exact mirrors_fail rfl _ _ machines
      · refine ends_bind (inside _ (.once found) machines) fun once _ _ applied machines => ?_
        exact inside _ (.twice found applied) machines
  | attempt =>
      cases arguments with
      | nil => exact mirrors_fail rfl _ _ machines
      | cons function rest => exact ends_recover _ (inside _ (.attempt found) machines)
  -- The others call nothing back.
  | print => exact mirrors_native .print arguments idle _ _ machines
  | type => exact mirrors_native .type arguments idle _ _ machines
  | tostring => exact mirrors_native .tostring arguments idle _ _ machines
  | record => exact mirrors_native .record arguments idle _ _ machines
  | fail => exact mirrors_native .fail arguments idle _ _ machines
  | setKey => exact mirrors_native .setKey arguments idle _ _ machines
  | sum => exact mirrors_native .sum arguments idle _ _ machines
  | idle => exact mirrors_native .idle arguments idle _ _ machines

theorem apply_settled {scopes : List Scope} {function : Value} {arguments : List Value}
    (machines : machine.Settles constants other)
    (inside : ∀ inner, Enters ⟨fuel, other, scopes, .apply function arguments⟩ inner →
      inner.Settled constants) :
    (Bond.settled constants).Ends (apply fuel function arguments machine)
      (apply fuel function arguments other) := by
  cases fuel with
  | zero => exact .exhausted
  | succ fuel =>
      cases function with
      | function id =>
          rw [apply]
          refine ends_callable machines fun function function' found alike => ?_
          cases alike with
          | native name native => exact native_settled machines found inside
          | closure settles =>
              refine ends_bind (mirrors_enter arguments rfl rfl _ _ machines)
                fun scope _ _ enters machines => ?_
              refine ends_bind (ends_finish _ (inside _ (.activation found enters) machines settles)
                fun machine other machines => ?_) fun _ _ _ _ machines => .done _ machines
              rw [((Bond.settled constants).agrees machines).depth]
              exact (Bond.settled constants).atDepth _ machines
      | _ => exact mirrors_misuse _ _ _ _ machines

end

/-- What is done with numbers in place of names ends as it does with the names, if these have the
numbers whenever their negations are evaluated. -/
theorem settled_induction (activity : Activity) (holds : activity.Holds constants) :
    activity.Settled constants := by
  induction activity using enters_induction with
  | step activity ih =>
      have inside (inner : Activity) (enters : Enters activity inner) : inner.Settled constants :=
        ih inner enters (holds_enters holds enters)
      obtain ⟨fuel, other, scopes, task⟩ := activity
      rcases scopes with _ | ⟨scope, outer⟩
      · cases task with
        | apply => exact fun _ machines => apply_settled machines inside
        | _ => trivial
      · cases task with
        | apply => exact fun _ machines => apply_settled machines inside
        | evaluate =>
            exact fun _ _ machines settles => evaluate_settled machines settles holds inside
        | evaluateAll =>
            exact fun _ _ machines settles => evaluateAll_settled machines settles inside
        | fill => exact fun _ _ machines settles => fill_settled machines settles inside
        | execute => exact fun _ _ machines settles => execute_settled machines settles inside
        | executeBlock =>
            exact fun _ _ machines settles => executeBlock_settled machines settles inside
        | executeBranches =>
            exact fun _ _ _ machines last settles =>
              executeBranches_settled machines last settles inside
        | rounds => exact fun _ _ machines settles => rounds_settled machines settles inside

/-- A program with numbers in place of names ends as the one with the names does. -/
theorem settled_run {program program' : Block} (fuel : Nat) {machine other : Machine}
    (settles : Block.Settles constants program program')
    (machines : machine.Settles constants other)
    (holds : Holds constants ⟨fuel, other, [{}], .executeBlock program'⟩) :
    (Bond.settled constants).Ends (run fuel program machine) (run fuel program' other) := by
  refine ends_bind (settled_induction _ holds machines settles) fun flow _ _ _ machines => ?_
  exact .done _ machines

/-- A minus sign means the same whether a number takes it or a product with minus one is computed.
What is parsed from a minus sign and an expression gives the other sign to the number that the
expression is evaluated to, misuses any other value and fails as the expression does, on the same
machine. And a program with numbers behind minus signs ends as the one does that has names there,
with the same value or failure on the same machine but for the bodies of functions, if the names have
these numbers whenever their negations are evaluated. -/
theorem negation_exact :
    (∀ (operand : Tree.Grammar.Derivation (.level 3)) (expression : Expression)
      (mark : Tree.Grammar.Mark (.operator .subtract)),
      Expression.ofTree operand.tree = .ok expression →
        ∃ negation,
          Expression.ofTree (Tree.Grammar.Derivation.negate mark operand).tree = .ok negation ∧
            ∀ call fuel scope machine,
              Negates (evaluate call fuel scope expression machine)
                (evaluate call fuel scope negation machine) ∧
              evaluate call fuel scope negation machine =
                evaluate call fuel scope (.binary (.number (-1)) .multiply expression) machine) ∧
    ∀ (constants : String → Option Float) (program program' : Block) (fuel : Nat)
      (machine other : Machine),
      Block.Settles constants program program' →
      machine.Settles constants other →
      Holds constants ⟨fuel, other, [{}], .executeBlock program'⟩ →
        (Bond.settled constants).Ends (run fuel program machine) (run fuel program' other) := by
  refine ⟨fun operand expression mark built => ?_, fun constants program program' fuel machine other
    settles machines holds => settled_run fuel settles machines holds⟩
  refine ⟨expression.negate, ofTree_negate built mark, fun call fuel scope machine => ?_⟩
  refine ⟨negates_evaluate call fuel scope expression machine, ?_⟩
  rw [evaluate_negate]
  rfl

theorem holds_stages {activity : Activity}
    (here : ∀ fuel machine scope outer name value, constants name = some value →
      activity = ⟨fuel, machine, scope :: outer, .evaluate (Expression.name name).negate⟩ →
        machine.lookup scope name = .number value)
    (stages : ∀ stage ∈ activity.stages, stage.Holds constants) : activity.Holds constants := by
  intro fuel machine scope outer name value known visits
  rcases visits_first.mp visits with same | ⟨stage, enters, visits⟩
  · exact here fuel machine scope outer name value known same.symm
  · exact stages stage (enters_stage enters) fuel machine scope outer name value known visits

/-- Two minus signs in front of a name, and a zero in place of one that is local. -/
theorem negation_exact_zero :
    let mark : Tree.Grammar.Mark (.operator .subtract) := ⟨"-", {}⟩
    let operand : Tree.Grammar.Derivation (.level 3) :=
      .negate mark (.operand (by decide) (.operand (by decide) (.reference ⟨"x", {}⟩)))
    let constants : String → Option Float := fun name => if name = "x" then some 0 else none
    let program : Block := [.declare "x" (.number 0), .returns (Expression.number 0).negate]
    let program' : Block := [.declare "x" (.number 0), .returns (Expression.name "x").negate]
    let machine := (Session.bare 0).machine
    (∃ negation,
      Expression.ofTree (Tree.Grammar.Derivation.negate mark operand).tree = .ok negation ∧
        ∀ call fuel scope machine,
          Negates (evaluate call fuel scope (Expression.name "x").negate machine)
            (evaluate call fuel scope negation machine)) ∧
    Block.Settles constants program program' ∧
    Holds constants ⟨1, machine, [{}], .executeBlock program'⟩ ∧
    ∃ after after', run 1 program machine = .done (.number (-0)) after ∧
      run 1 program' machine = .done (.number (-0)) after' ∧ after.Settles constants after' := by
  intro mark operand constants program program' machine
  have settles : Block.Settles constants program program' :=
    .cons (.declare "x" (.number 0)) (.cons (.returns (.settled (if_pos rfl) 0)) .nil)
  have holds : Holds constants ⟨1, machine, [{}], .executeBlock program'⟩ := by
    refine holds_stages (by rintro _ _ _ _ _ _ _ ⟨⟩) (List.forall_mem_cons.mpr ⟨?_,
      List.forall_mem_cons.mpr ⟨?_, List.forall_mem_nil _⟩⟩)
    · refine holds_stages (by rintro _ _ _ _ _ _ _ ⟨⟩)
        (List.forall_mem_cons.mpr ⟨?_, List.forall_mem_nil _⟩)
      exact holds_stages (by rintro _ _ _ _ _ _ _ ⟨⟩) (List.forall_mem_nil _)
    · refine holds_stages (by rintro _ _ _ _ _ _ _ ⟨⟩)
        (List.forall_mem_cons.mpr ⟨?_, List.forall_mem_nil _⟩)
      refine holds_stages (by rintro _ _ _ _ _ _ _ ⟨⟩)
        (List.forall_mem_cons.mpr ⟨?_, List.forall_mem_nil _⟩)
      refine holds_stages ?_ (List.forall_mem_cons.mpr ⟨?_,
        List.forall_mem_cons.mpr ⟨?_, List.forall_mem_nil _⟩⟩)
      · rintro _ _ _ _ _ _ known ⟨⟩
        cases (if_pos rfl).symm.trans known
        rfl
      · exact holds_stages (by rintro _ _ _ _ _ _ _ ⟨⟩) (List.forall_mem_nil _)
      · exact holds_stages (by rintro _ _ _ _ _ _ _ ⟨⟩) (List.forall_mem_nil _)
  obtain ⟨negates, runs⟩ := negation_exact
  refine ⟨?_, settles, holds, ?_⟩
  · obtain ⟨negation, built, means⟩ := negates operand (Expression.name "x").negate mark rfl
    exact ⟨negation, built, fun call fuel scope machine => (means call fuel scope machine).1⟩
  · have ends := runs constants program program' 1 machine machine settles machine.settles_refl holds
    obtain ⟨after, ran⟩ : ∃ after, run 1 program machine = .done (.number (-0)) after := ⟨_, rfl⟩
    rw [ran] at ends
    generalize run 1 program' machine = outcome at ends
    cases ends with
    | done _ machines => exact ⟨_, _, ran, rfl, machines⟩

end LuaCore
