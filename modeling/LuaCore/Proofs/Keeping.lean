import LuaCore.Proofs.Discipline
import LuaCore.Session

/-!
Programs keep every discipline: started on a sound machine, with values that they may have and in a
scope that they may run in, they end on a sound machine, with a value that they may have or in a
failure that is allowed. This is shown for each form of tree, natives and calls included.
-/

namespace LuaCore

namespace Evaluation

open Discipline

variable {discipline : Discipline} {machine : Machine} {scope : Scope}

/-! Steps of the evaluator. -/

theorem bindName_ends {scope : Scope} {value : Value} (name : String)
    (sound : discipline.Sound machine) (sees : discipline.Sees machine scope)
    (holds : discipline.Holds machine value) :
    discipline.Ends machine discipline.Sees (bindName scope name value machine) :=
  keeps_put name sound sees holds

theorem assignName_ends {scope : Scope} {value : Value} (name : String)
    (sound : discipline.Sound machine) (sees : discipline.Sees machine scope)
    (holds : discipline.Holds machine value) :
    discipline.Ends machine discipline.Sees (assignName scope name value machine) := by
  unfold assignName
  by_cases bound : scope.has name
  · rw [if_pos bound]
    exact bindName_ends name sound sees holds
  · rw [if_neg bound]
    apply ends_bind (ends_modify (keeps_putGlobal name sound holds))
    intro _ after keeps _
    exact ends_pure keeps.1 (sees_later keeps.2 sees)

theorem newFunction_ends {closure : Closure} (sound : discipline.Sound machine)
    (proper : discipline.lenient ∨ Statement.AllProper closure.body)
    (sees : discipline.Sees machine closure.capture) :
    discipline.Ends machine discipline.Holds (newFunction (.closure closure) machine) := by
  have runs : discipline.Runs (.closure closure) := proper
  have keeps := keeps_newFunction sound runs (by
    rintro _ ⟨⟩
    exact sees)
  refine ⟨keeps, holds_function.mpr ?_⟩
  exact (discipline.knows_newFunction _ _ sound.demands).mpr (.inr rfl)

theorem newTable_ends (sound : discipline.Sound machine) :
    discipline.Ends machine (fun machine id => discipline.knows machine (.table id))
      (newTable machine) :=
  ⟨keeps_newTable sound, (discipline.knows_newTable _ sound.demands).mpr (.inr rfl)⟩

theorem requireTable_ends {value : Value} (sound : discipline.Sound machine)
    (holds : discipline.Holds machine value) :
    discipline.Ends machine (fun machine id => discipline.knows machine (.table id))
      (requireTable value machine) := by
  cases value with
  | table id => exact ends_pure sound (holds_table.mp holds)
  | _ => exact ends_misuse sound True.intro holds

theorem requireKey_ends {value : Value} (sound : discipline.Sound machine)
    (holds : discipline.Holds machine value) :
    discipline.Ends machine (fun _ key => key.Stored) (requireKey value machine) := by
  unfold requireKey
  cases stands : value.toKey? with
  | some key => exact ends_pure sound (.value stands)
  | none => exact ends_misuse sound True.intro holds

theorem requireNumber_ends {place : Misuse} {value : Value} (other : place ≠ .call)
    (sound : discipline.Sound machine) (holds : discipline.Holds machine value) :
    discipline.Ends machine (fun _ _ => True) (requireNumber place value machine) := by
  cases value with
  | number x => exact ends_pure sound True.intro
  | _ =>
      refine ends_misuse sound (rejects_number other ?_) holds
      rintro x ⟨⟩

theorem readTable_ends {id : Nat} (key : Key) (sound : discipline.Sound machine)
    (known : discipline.knows machine (.table id)) :
    discipline.Ends machine discipline.Holds (readTable id key machine) :=
  ⟨keeps_refl sound, holds_entry key sound known⟩

theorem writeTable_ends {id : Nat} {key : Key} {value : Value} (sound : discipline.Sound machine)
    (known : discipline.knows machine (.table id)) (stored : key.Stored)
    (holds : discipline.Holds machine value) :
    discipline.Ends machine (fun _ _ => True) (writeTable id key value machine) :=
  ends_modify (keeps_setTable sound known stored holds)

theorem binary_plain {operation : Operation} {lhs rhs value : Value}
    (ok : binary operation lhs rhs = .ok value) : value.object? = none := by
  unfold binary at ok
  split at ok <;> cases ok <;> rfl

/-- The operand that arithmetic is refused for. -/
theorem binary_operand {operation : Operation} {lhs rhs operand : Value}
    (error : binary operation lhs rhs = .error operand) :
    (operand = lhs ∨ operand = rhs) ∧ ∀ x, operand ≠ .number x := by
  unfold binary at error
  split at error
  · cases error
  · next other =>
      cases error
      refine ⟨.inr rfl, ?_⟩
      rintro x rfl
      exact other x rfl
  · next other _ =>
      cases error
      refine ⟨.inl rfl, ?_⟩
      rintro x rfl
      exact other x rfl
  · cases error
  · cases error

theorem operate_ends {lhs rhs : Value} (operation : Operation) (sound : discipline.Sound machine)
    (left : discipline.Holds machine lhs) (right : discipline.Holds machine rhs) :
    discipline.Ends machine discipline.Holds (operate operation lhs rhs machine) := by
  unfold operate
  cases computed : binary operation lhs rhs with
  | ok value => exact ends_pure sound (holds_plain (binary_plain computed))
  | error operand =>
      obtain ⟨side, number⟩ := binary_operand computed
      refine ends_misuse sound number ?_
      rcases side with rfl | rfl
      · exact left
      · exact right

/-- Rounds of a loop, whose body keeps the discipline in every scope that it may run in. -/
theorem rounds_ends {body : Scope → Eval Flow} (name : String) (limit step : Float)
    (keeps : ∀ machine scope, discipline.Sound machine → discipline.Sees machine scope →
      discipline.Ends machine discipline.Leads (body scope machine))
    (fuel : Nat) (counter : Float) {machine : Machine} {scope : Scope}
    (sound : discipline.Sound machine) (sees : discipline.Sees machine scope) :
    discipline.Ends machine discipline.Leads
      (rounds body name limit step fuel counter scope machine) := by
  induction fuel generalizing counter machine scope with
  | zero => exact True.intro
  | succ fuel ih =>
      rw [rounds]
      by_cases inside : counter ≤ limit
      · rw [if_pos inside]
        apply ends_bind (bindName_ends name sound sees (holds_plain rfl))
        intro bound first kept inner
        apply ends_bind (keeps first bound kept.1 inner)
        intro flow second kept leads
        cases flow with
        | next after => exact ih (counter + step) kept.1 leads
        | result value => exact ends_pure kept.1 leads
      · rw [if_neg inside]
        exact ends_pure sound sees

/-! Steps that several trees have in common. The parts of a tree are computations here, so that the
induction over trees has to speak about the parts only. -/

section

variable {β : Type} {result : Machine → β → Prop} {target asked : Eval Value}

/-- A table is asked for. -/
theorem table_ends {next : Nat → Eval β} (evaluates : discipline.Ends machine discipline.Holds
      (target machine))
    (goes : ∀ id after, discipline.Keeps machine after → discipline.knows after (.table id) →
      discipline.Ends after result (next id after)) :
    discipline.Ends machine result
      (Eval.bind target (fun value => Eval.bind (requireTable value) next) machine) := by
  apply ends_bind evaluates
  intro value between keeps holds
  apply ends_bind (requireTable_ends keeps.1 holds)
  intro id after keeps' known
  exact goes id after (keeps_trans keeps keeps') known

/-- An entry of a table is asked for. -/
theorem entry_ends {next : Nat → Key → Eval β} (sees : discipline.Sees machine scope)
    (evaluates : discipline.Ends machine discipline.Holds (target machine))
    (asks : ∀ after, discipline.Sound after → discipline.Sees after scope →
      discipline.Ends after discipline.Holds (asked after))
    (goes : ∀ id key after, discipline.Keeps machine after → discipline.knows after (.table id) →
      key.Stored → discipline.Ends after result (next id key after)) :
    discipline.Ends machine result
      (Eval.bind target (fun value => Eval.bind (requireTable value) fun id =>
        Eval.bind asked fun given => Eval.bind (requireKey given) (next id)) machine) := by
  apply table_ends evaluates
  intro id between keeps known
  apply ends_bind (asks between keeps.1 (sees_later keeps.2 sees))
  intro given last keeps' holds
  apply ends_bind (requireKey_ends keeps'.1 holds)
  intro key after keeps'' stored
  have kept := keeps_trans keeps' keeps''
  exact goes id key after (keeps_trans keeps kept) (kept.2.known _ known) stored

/-- A number is asked for. -/
theorem number_ends {place : Misuse} {next : Float → Eval β} (other : place ≠ .call)
    (evaluates : discipline.Ends machine discipline.Holds (target machine))
    (goes : ∀ x after, discipline.Keeps machine after →
      discipline.Ends after result (next x after)) :
    discipline.Ends machine result
      (Eval.bind target (fun value => Eval.bind (requireNumber place value) next) machine) := by
  apply ends_bind evaluates
  intro value between keeps holds
  apply ends_bind (requireNumber_ends other keeps.1 holds)
  intro x after keeps' _
  exact goes x after (keeps_trans keeps keeps')

end

/-- An entry is written, and the next statement follows. -/
theorem store_ends {id : Nat} {key : Key} {value : Value} (sound : discipline.Sound machine)
    (sees : discipline.Sees machine scope) (known : discipline.knows machine (.table id))
    (stored : key.Stored) (holds : discipline.Holds machine value) :
    discipline.Ends machine discipline.Leads
      (Eval.bind (writeTable id key value) (fun _ => Eval.pure (.next scope)) machine) := by
  apply ends_bind (writeTable_ends sound known stored holds)
  intro _ after keeps _
  exact ends_pure keeps.1 (sees_later keeps.2 sees)

/-- A field is written, and the next ones follow. -/
theorem field_ends {id : Nat} {key : Key} {value : Eval Value} {rest : Eval Unit}
    (sees : discipline.Sees machine scope) (known : discipline.knows machine (.table id))
    (stored : key.Stored) (evaluates : discipline.Ends machine discipline.Holds (value machine))
    (goes : ∀ after, discipline.Sound after → discipline.Sees after scope →
      discipline.knows after (.table id) →
      discipline.Ends after (fun _ _ => True) (rest after)) :
    discipline.Ends machine (fun _ _ => True)
      (Eval.bind value (fun value => Eval.bind (writeTable id key value) fun _ => rest)
        machine) := by
  apply ends_bind evaluates
  intro value between keeps holds
  have known := keeps.2.known _ known
  apply ends_bind (writeTable_ends keeps.1 known stored holds)
  intro _ after keeps' _
  have kept := keeps_trans keeps keeps'
  exact goes after kept.1 (sees_later kept.2 sees) (keeps'.2.known _ known)

/-- Every statement is counted first. -/
theorem begin_ends {summary : String} {next : Unit → Eval Flow}
    (sound : discipline.Sound machine) (sees : discipline.Sees machine scope)
    (goes : ∀ begun, discipline.Sound begun → discipline.Sees begun scope →
      discipline.Ends begun discipline.Leads (next () begun)) :
    discipline.Ends machine discipline.Leads
      (Eval.bind (Eval.modify fun machine => machine.begin summary) next machine) := by
  apply ends_bind (ends_modify (keeps_quiet sound (machine.begin_quiet summary)))
  intro _ begun keeps _
  exact goes begun keeps.1 (sees_later keeps.2 sees)

/-- A block is run if its condition holds. -/
theorem branch_ends {condition : Eval Value} {body behind : Eval Flow}
    (sees : discipline.Sees machine scope)
    (asks : discipline.Ends machine discipline.Holds (condition machine))
    (runs : ∀ after, discipline.Sound after → discipline.Sees after scope →
      discipline.Ends after discipline.Leads (body after))
    (goes : ∀ after, discipline.Sound after → discipline.Sees after scope →
      discipline.Ends after discipline.Leads (behind after)) :
    discipline.Ends machine discipline.Leads
      (Eval.bind condition (fun value => if value.isTruthy then body else behind) machine) := by
  apply ends_bind asks
  intro value after keeps _
  have sees := sees_later keeps.2 sees
  by_cases truthy : value.isTruthy
  · rw [if_pos truthy]
    exact runs after keeps.1 sees
  · rw [if_neg truthy]
    exact goes after keeps.1 sees

/-- What a loop binds is left with it. -/
theorem loop_ends {body : Eval Flow} (sees : discipline.Sees machine scope)
    (runs : discipline.Ends machine discipline.Leads (body machine)) :
    discipline.Ends machine discipline.Leads
      (Eval.bind body (fun flow => match flow with
        | .next _ => Eval.pure (.next scope)
        | .result value => Eval.pure (.result value)) machine) := by
  apply ends_bind runs
  intro flow after keeps leads
  cases flow with
  | next inner => exact ends_pure keeps.1 (sees_later keeps.2 sees)
  | result value => exact ends_pure keeps.1 leads

/-! Trees. An improper one is only run in a lenient discipline. -/

variable {call : Caller} {fuel : Nat}

-- Calls are a hypothesis here. They are shown to keep the discipline afterwards, by induction on
-- fuel, so that the induction below is on trees only.
mutual

theorem evaluate_ends (calls : discipline.Calls call) {expression : Expression}
    {machine : Machine} {scope : Scope} (sound : discipline.Sound machine)
    (sees : discipline.Sees machine scope)
    (proper : discipline.lenient ∨ expression.Proper) :
    discipline.Ends machine discipline.Holds (evaluate call fuel scope expression machine) := by
  cases expression with
  | number | string | boolean | nil => exact ends_pure sound (holds_plain rfl)
  | name name => exact ⟨keeps_refl sound, holds_lookup name sound sees⟩
  | table fields =>
      rw [evaluate]
      apply ends_bind (newTable_ends sound)
      intro id filled keeps known
      have sees := sees_later keeps.2 sees
      apply ends_bind (fillTable_ends calls keeps.1 sees known proper)
      intro _ after keeps _
      exact ends_pure keeps.1 (holds_table.mpr (keeps.2.known _ known))
  | binary lhs operation rhs =>
      apply ends_bind (evaluate_ends calls sound sees (proper.imp_right And.left))
      intro left between keeps holds
      have sees := sees_later keeps.2 sees
      apply ends_bind (evaluate_ends calls keeps.1 sees (proper.imp_right And.right))
      intro right after keeps holds'
      exact operate_ends operation keeps.1 (holds_later keeps.2 holds) holds'
  | call callee arguments =>
      apply ends_bind (evaluate_ends calls sound sees (proper.imp_right And.left))
      intro value called keeps holds
      have sees := sees_later keeps.2 sees
      cases value with
      | function id =>
          apply ends_bind (evaluateAll_ends calls keeps.1 sees (proper.imp_right And.right))
          intro values after keeps given
          exact calls _ _ _ keeps.1 (holds_later keeps.2 holds) given
      | _ =>
          refine ends_misuse keeps.1 ?_ holds
          rintro id ⟨⟩
  | dot target name =>
      refine table_ends (evaluate_ends calls sound sees proper) ?_
      intro id after keeps known
      exact readTable_ends _ keeps.1 known
  | index target key =>
      refine entry_ends sees (evaluate_ends calls sound sees (proper.imp_right And.left)) ?_ ?_
      · intro after sound sees
        exact evaluate_ends calls sound sees (proper.imp_right And.right)
      · intro id key after keeps known _
        exact readTable_ends key keeps.1 known
  | function parameters body => exact newFunction_ends sound proper sees
  | strayStatement | strayField => exact ends_fail sound (proper.resolve_right id)

theorem evaluateAll_ends (calls : discipline.Calls call) {expressions : List Expression}
    {machine : Machine} {scope : Scope} (sound : discipline.Sound machine)
    (sees : discipline.Sees machine scope)
    (proper : discipline.lenient ∨ Expression.AllProper expressions) :
    discipline.Ends machine discipline.HoldsAll
      (evaluateAll call fuel scope expressions machine) := by
  cases expressions with
  | nil =>
      apply ends_pure sound
      rintro value ⟨⟩
  | cons expression rest =>
      apply ends_bind (evaluate_ends calls sound sees (proper.imp_right And.left))
      intro value between keeps holds
      have sees := sees_later keeps.2 sees
      apply ends_bind (evaluateAll_ends calls keeps.1 sees (proper.imp_right And.right))
      intro values after keeps given
      apply ends_pure keeps.1
      intro other member
      rcases List.mem_cons.mp member with rfl | member
      · exact holds_later keeps.2 holds
      · exact given other member

theorem fillTable_ends (calls : discipline.Calls call) {fields : List Field} {id position : Nat}
    {machine : Machine} {scope : Scope} (sound : discipline.Sound machine)
    (sees : discipline.Sees machine scope)
    (known : discipline.knows machine (.table id))
    (proper : discipline.lenient ∨ Field.AllProper fields) :
    discipline.Ends machine (fun _ _ => True)
      (fillTable call fuel scope id position fields machine) := by
  cases fields with
  | nil => exact ends_pure sound True.intro
  | cons field rest =>
      have behind := proper.imp_right And.right
      have proper := proper.imp_right And.left
      cases field with
      | positional value =>
          refine field_ends sees known (.position position)
            (evaluate_ends calls sound sees proper) ?_
          intro after sound sees known
          exact fillTable_ends calls sound sees known behind
      | named name value =>
          refine field_ends sees known (name_stored name)
            (evaluate_ends calls sound sees proper) ?_
          intro after sound sees known
          exact fillTable_ends calls sound sees known behind
      | keyed key value =>
          apply ends_bind (evaluate_ends calls sound sees (proper.imp_right And.left))
          intro given asked keeps holds
          apply ends_bind (requireKey_ends keeps.1 holds)
          intro key between keeps' stored
          have kept := keeps_trans keeps keeps'
          have sees := sees_later kept.2 sees
          refine field_ends sees (kept.2.known _ known) stored
            (evaluate_ends calls kept.1 sees (proper.imp_right And.right)) ?_
          intro after sound sees known
          exact fillTable_ends calls sound sees known behind

theorem executeBlock_ends (calls : discipline.Calls call) {statements : List Statement}
    {machine : Machine} {scope : Scope} (sound : discipline.Sound machine)
    (sees : discipline.Sees machine scope)
    (proper : discipline.lenient ∨ Statement.AllProper statements) :
    discipline.Ends machine discipline.Leads
      (executeBlock call fuel scope statements machine) := by
  cases statements with
  | nil => exact ends_pure sound sees
  | cons statement rest =>
      apply ends_bind (execute_ends calls sound sees (proper.imp_right And.left))
      intro flow after keeps leads
      cases flow with
      | next scope => exact executeBlock_ends calls keeps.1 leads (proper.imp_right And.right)
      | result value => exact ends_pure keeps.1 leads

theorem executeBranches_ends (calls : discipline.Calls call) {branches : List Branch}
    {machine : Machine} {scope : Scope} {otherwise : Eval Flow} (sound : discipline.Sound machine)
    (sees : discipline.Sees machine scope)
    (proper : discipline.lenient ∨ Branch.AllProper branches)
    (last : ∀ after, discipline.Sound after → discipline.Sees after scope →
      discipline.Ends after discipline.Leads (otherwise after)) :
    discipline.Ends machine discipline.Leads
      (executeBranches call fuel scope otherwise branches machine) := by
  cases branches with
  | nil => exact last machine sound sees
  | cons branch rest =>
      obtain ⟨condition, body⟩ := branch
      have behind := proper.imp_right And.right
      have proper := proper.imp_right And.left
      refine branch_ends sees (evaluate_ends calls sound sees (proper.imp_right And.left)) ?_ ?_
      · intro after sound sees
        exact executeBlock_ends calls sound sees (proper.imp_right And.right)
      · intro after sound sees
        exact executeBranches_ends calls sound sees behind last

theorem execute_ends (calls : discipline.Calls call) {statement : Statement}
    {machine : Machine} {scope : Scope} (sound : discipline.Sound machine)
    (sees : discipline.Sees machine scope) (proper : discipline.lenient ∨ statement.Proper) :
    discipline.Ends machine discipline.Leads (execute call fuel scope statement machine) := by
  cases statement with
  | assign target value =>
      rw [execute]
      apply begin_ends sound sees
      intro begun sound sees
      -- The value is evaluated before the parts of the target.
      have assignable := proper.imp_right And.left
      have proper := proper.imp_right And.right
      apply ends_bind (evaluate_ends calls sound sees (proper.imp_right And.right))
      intro value between keeps holds
      have sees := sees_later keeps.2 sees
      have proper := proper.imp_right And.left
      cases target with
      | name name =>
          apply ends_bind (assignName_ends name keeps.1 sees holds)
          intro scope after keeps leads
          exact ends_pure keeps.1 leads
      | dot target name =>
          refine table_ends (evaluate_ends calls keeps.1 sees proper) ?_
          intro id after keeps known
          exact store_ends keeps.1 (sees_later keeps.2 sees) known (name_stored name)
            (holds_later keeps.2 holds)
      | index target key =>
          have indexed := evaluate_ends calls keeps.1 sees (proper.imp_right And.left)
          refine entry_ends sees indexed ?_ ?_
          · intro after sound sees
            exact evaluate_ends calls sound sees (proper.imp_right And.right)
          · intro id key after keeps known stored
            exact store_ends keeps.1 (sees_later keeps.2 sees) known stored
              (holds_later keeps.2 holds)
      | _ =>
          refine ends_fail keeps.1 (assignable.resolve_right ?_)
          rintro ⟨⟩
  | declare name value =>
      apply begin_ends sound sees
      intro begun sound sees
      apply ends_bind (evaluate_ends calls sound sees proper)
      intro value between keeps holds
      have sees := sees_later keeps.2 sees
      apply ends_bind (bindName_ends name keeps.1 sees holds)
      intro scope after keeps leads
      exact ends_pure keeps.1 leads
  | evaluate expression =>
      apply begin_ends sound sees
      intro begun sound sees
      apply ends_bind (evaluate_ends calls sound sees proper)
      intro value after keeps _
      exact ends_pure keeps.1 (sees_later keeps.2 sees)
  | returns value =>
      apply begin_ends sound sees
      intro begun sound sees
      apply ends_bind (evaluate_ends calls sound sees proper)
      intro value after keeps holds
      exact ends_pure keeps.1 holds
  | function name parameters body =>
      apply begin_ends sound sees
      intro begun sound sees
      refine ends_bind (newFunction_ends sound proper sees) ?_
      intro value between keeps holds
      have sees := sees_later keeps.2 sees
      apply ends_bind (ends_modify (keeps_putGlobal name keeps.1 holds))
      intro _ after keeps _
      exact ends_pure keeps.1 (sees_later keeps.2 sees)
  | choose first others otherwise =>
      obtain ⟨condition, body⟩ := first
      have chosen := proper.imp_right And.left
      have behind := proper.imp_right And.right
      have branches := behind.imp_right And.left
      have last := behind.imp_right And.right
      -- The forms differ only in what is run behind the last branch.
      have chooses {final : Eval Flow} (closes : ∀ after, discipline.Sound after →
          discipline.Sees after scope → discipline.Ends after discipline.Leads (final after))
          (begun : Machine) (sound : discipline.Sound begun)
          (sees : discipline.Sees begun scope) :
          discipline.Ends begun discipline.Leads
            (Eval.bind (evaluate call fuel scope condition) (fun value =>
              if value.isTruthy then executeBlock call fuel scope body
              else executeBranches call fuel scope final others) begun) := by
        have asks := evaluate_ends calls sound sees (chosen.imp_right And.left)
        refine branch_ends sees asks ?_ ?_
        · intro after sound sees
          exact executeBlock_ends calls sound sees (chosen.imp_right And.right)
        · intro after sound sees
          exact executeBranches_ends calls sound sees branches closes
      cases otherwise with
      | none =>
          rw [execute]
          refine begin_ends sound sees (chooses ?_)
          intro after sound sees
          exact ends_pure sound sees
      | some otherwise =>
          rw [execute]
          refine begin_ends sound sees (chooses ?_)
          intro after sound sees
          exact executeBlock_ends calls sound sees last
  | loop counter start limit step body =>
      rw [execute]
      apply begin_ends sound sees
      intro begun sound sees
      have first := proper.imp_right And.left
      have behind := proper.imp_right And.right
      apply number_ends (by decide) (evaluate_ends calls sound sees first)
      intro start started keeps
      have sees := sees_later keeps.2 sees
      have second := evaluate_ends calls keeps.1 sees (behind.imp_right And.left)
      apply number_ends (by decide) second
      intro limit limited keeps
      have sees := sees_later keeps.2 sees
      have behind := behind.imp_right And.right
      -- The rounds end in the scope of the loop, which is left with them.
      have last (step : Float) {after : Machine} (sound : discipline.Sound after)
          (sees : discipline.Sees after scope) :=
        loop_ends sees (rounds_ends counter limit step (fun _ _ sound sees =>
          executeBlock_ends calls sound sees (behind.imp_right And.right)) fuel start sound sees)
      cases step with
      | none => exact last 1 keeps.1 sees
      | some step =>
          have third := evaluate_ends calls keeps.1 sees (behind.imp_right And.left)
          apply number_ends (by decide) third
          intro step after keeps
          exact last step keeps.1 (sees_later keeps.2 sees)
  | strayExpression | strayField =>
      apply begin_ends sound sees
      intro begun sound sees
      exact ends_fail sound (proper.resolve_right id)

end

/-! Calls. -/

theorem call_pair {function value : Value} (calls : discipline.Calls call)
    (sound : discipline.Sound machine) (holds : discipline.Holds machine function)
    (given : discipline.Holds machine value) :
    discipline.Ends machine discipline.Holds (call function [value] machine) := by
  apply calls _ _ _ sound holds
  intro other member
  cases List.mem_singleton.mp member
  exact given

/-- Going on with a plain value in place of a failure. -/
theorem recover_ends {body : Eval Value} {handle : Failure → Value}
    (runs : discipline.Ends machine discipline.Holds (body machine))
    (plain : ∀ failure, (handle failure).object? = none) :
    discipline.Ends machine discipline.Holds (Eval.recover body handle machine) := by
  unfold Eval.recover
  cases ended : body machine with
  | done value after =>
      rw [ended] at runs
      exact runs
  | failed failure after =>
      rw [ended] at runs
      by_cases misuse : failure.isMisuse
      · simp only [misuse, if_true]
        exact ⟨runs.1, holds_plain (plain failure)⟩
      · simp only [misuse]
        exact runs
  | exhausted => exact True.intro

theorem native_ends {native : Native} {arguments : List Value} (calls : discipline.Calls call)
    (sound : discipline.Sound machine) (runs : discipline.lenient ∨ native.Steady)
    (given : discipline.HoldsAll machine arguments) :
    discipline.Ends machine discipline.Holds (native.run call arguments machine) := by
  cases native with
  | print =>
      rw [Native.run]
      refine ends_bind (ends_modify (keeps_quiet sound
        (Machine.printedLine_quiet arguments machine))) ?_
      intro _ after keeps _
      exact ends_pure keeps.1 (holds_plain rfl)
  | type => exact ends_pure sound (holds_plain rfl)
  | tostring =>
      exact ⟨keeps_quiet sound (Machine.plain_quiet _ machine), holds_plain rfl⟩
  | record =>
      rw [Native.run]
      refine ends_bind (ends_modify (keeps_quiet sound
        (Machine.recordAll_quiet arguments machine))) ?_
      intro _ after keeps _
      exact ends_pure keeps.1 (holds_plain rfl)
  | fail => exact ends_fail sound (runs.resolve_right id)
  | twice =>
      rcases arguments with _ | ⟨function, _ | ⟨value, rest⟩⟩
      · exact ends_fail sound (runs.resolve_right id)
      · exact ends_fail sound (runs.resolve_right id)
      · have holds := given function List.mem_cons_self
        have once := given value (List.mem_cons_of_mem _ List.mem_cons_self)
        apply ends_bind (call_pair calls sound holds once)
        intro value after keeps twice
        exact call_pair calls keeps.1 (holds_later keeps.2 holds) twice
  | setKey =>
      simp only [Native.run]
      split
      · next id key value _ =>
          have known := holds_table.mp (given _ List.mem_cons_self)
          have holds := given value (by simp)
          cases stands : key.toKey? with
          | some key =>
              apply ends_bind (ends_modify (keeps_setTable sound known (.value stands) holds))
              intro _ after keeps _
              exact ends_pure keeps.1 (holds_table.mpr (keeps.2.known _ known))
          | none => exact ends_misuse sound True.intro (given key (by simp))
      · exact ends_fail sound (runs.resolve_right id)
  | sum =>
      unfold Native.run
      cases Native.total? 0 arguments with
      | some result => exact ends_pure sound (holds_plain rfl)
      | none => exact ends_fail sound (runs.resolve_right id)
  | attempt =>
      cases arguments with
      | nil => exact ends_fail sound (runs.resolve_right id)
      | cons function rest =>
          refine recover_ends (calls _ _ _ sound (given function List.mem_cons_self) ?_) ?_
          · intro value member
            exact given value (List.mem_cons_of_mem _ member)
          · intro failure
            rfl
  | idle => exact ends_pure sound (holds_plain rfl)

theorem bind_holds {parameters : List String} {arguments : List Value}
    (given : discipline.HoldsAll machine arguments) :
    ∀ binding ∈ Closure.bind parameters arguments, discipline.Holds machine binding.2 := by
  induction parameters generalizing arguments with
  | nil => rintro binding ⟨⟩
  | cons name rest ih =>
      intro binding member
      cases arguments with
      | nil =>
          rcases List.mem_cons.mp member with rfl | member
          · exact holds_plain rfl
          · exact ih given binding member
      | cons value values =>
          rcases List.mem_cons.mp member with rfl | member
          · exact given value List.mem_cons_self
          · have others : discipline.HoldsAll machine values :=
              fun other inside => given other (List.mem_cons_of_mem _ inside)
            exact ih others binding member

theorem value_holds {flow : Flow} (leads : discipline.Leads machine flow) :
    discipline.Holds machine flow.value := by
  cases flow with
  | next scope => exact holds_plain rfl
  | result value => exact leads

/-- What is run at one depth more is left at the depth before. -/
theorem finish_ends {body : Eval Flow} (name : String)
    (runs : discipline.Ends (machine.atDepth (machine.depth + 1)) discipline.Leads
      (body (machine.atDepth (machine.depth + 1)))) :
    discipline.Ends machine discipline.Holds
      (Eval.bind (Eval.finish body (Failure.leaving name) fun machine =>
        machine.atDepth (machine.depth - 1)) (fun flow => Eval.pure flow.value)
        (machine.atDepth (machine.depth + 1))) := by
  unfold Eval.bind Eval.finish
  cases ended : body (machine.atDepth (machine.depth + 1)) with
  | done flow next =>
      rw [ended] at runs
      exact ⟨keeps_activation runs.1, holds_depth _ (value_holds runs.2)⟩
  | failed failure next =>
      rw [ended] at runs
      exact ⟨keeps_activation runs.1, fails_depth _ (fails_leaving name runs.2)⟩
  | exhausted => exact True.intro

/-- An activation of a script function. -/
theorem activation_ends {closure : Closure} {arguments : List Value}
    (calls : discipline.Calls call) (sound : discipline.Sound machine)
    (sees : discipline.Sees machine closure.capture)
    (proper : discipline.lenient ∨ Statement.AllProper closure.body)
    (given : discipline.HoldsAll machine arguments) :
    discipline.Ends machine discipline.Holds
      (Eval.bind (enter closure arguments) (fun scope =>
        Eval.bind (Eval.finish (executeBlock call fuel scope closure.body)
          (Failure.leaving closure.errorName)
          fun machine => machine.atDepth (machine.depth - 1)) fun flow =>
        Eval.pure flow.value) machine) := by
  obtain ⟨keeps, inside⟩ := keeps_putAll sound sees (bind_holds given)
  refine ends_trans keeps (finish_ends closure.errorName ?_)
  refine executeBlock_ends calls (keeps_depth keeps.1 _) ?_ proper
  intro binding member
  exact known_depth _ (inside binding member)

-- The induction on fuel ties the knot. The body of a function is not part of the calling tree; that
-- it is proper is known because the function is.
theorem apply_calls (fuel : Nat) : discipline.Calls (apply fuel) := by
  induction fuel with
  | zero =>
      intro machine function arguments _ _ _
      exact True.intro
  | succ fuel ih =>
      intro machine function arguments sound holds given
      cases function with
      | function id =>
          have known := holds_function.mp holds
          have runs := sound.runs id known
          rw [apply]
          apply ends_read
          cases found : machine.callable id with
          | native name native =>
              rw [found] at runs
              exact native_ends ih sound runs given
          | closure closure =>
              rw [found] at runs
              exact activation_ends ih sound (sees_capture sound known found) runs given
      | _ =>
          refine ends_misuse sound ?_ holds
          rintro id ⟨⟩

/-- A run keeps the discipline, whatever the program, as far as it is lenient. -/
theorem run_ends (fuel : Nat) {program : Block} (sound : discipline.Sound machine)
    (proper : discipline.lenient ∨ Statement.AllProper program) :
    discipline.Ends machine discipline.Holds (run fuel program machine) := by
  apply ends_bind (executeBlock_ends (apply_calls fuel) sound sees_empty proper)
  intro flow after keeps leads
  exact ends_pure keeps.1 (value_holds leads)

end Evaluation

/-! Sessions. -/

open Discipline

variable {discipline : Discipline} {session next : Session}

/-- Programs of texts are proper. -/
theorem parse_proper {source : String} {program : Block} (parsed : parse source = .ok program) :
    Statement.AllProper program := by
  obtain ⟨tree, _, read⟩ := ok_bind parsed
  cases faultless : Block.ofTree tree with
  | ok found =>
      rw [faultless] at read
      cases read
      exact block_proper faultless
  | error fault =>
      rw [faultless] at read
      cases read

theorem define_sound (name : String) (native : Native)
    (sound : discipline.Sound session.machine) (runs : discipline.lenient ∨ native.Steady) :
    discipline.Sound (session.define name native).machine := by
  have runs : discipline.Runs (.native name native) := runs
  have keeps := keeps_newFunction sound runs (by rintro _ ⟨⟩)
  refine (keeps_putGlobal name keeps.1 (holds_function.mpr ?_)).1
  exact (discipline.knows_newFunction _ _ sound.demands).mpr (.inr rfl)

/-- A run answers with the value or the failure that the program ends with. -/
theorem run_cases {fuel : Nat} {program : Block} {answer : Except Failure Value}
    (ran : session.run fuel program = some (answer, next)) :
    next = session.count next.machine ∧
      ((∃ value, answer = .ok value ∧
        Evaluation.run fuel program session.machine = .done value next.machine) ∨
      ∃ failure, answer = .error failure ∧
        Evaluation.run fuel program session.machine = .failed failure next.machine) := by
  unfold Session.run at ran
  cases ended : Evaluation.run fuel program session.machine with
  | done value =>
      rw [ended] at ran
      cases ran
      exact ⟨rfl, .inl ⟨value, rfl, rfl⟩⟩
  | failed failure =>
      rw [ended] at ran
      cases ran
      exact ⟨rfl, .inr ⟨failure, rfl, rfl⟩⟩
  | exhausted =>
      rw [ended] at ran
      cases ran

theorem apply_cases {fuel : Nat} {function : Value} {arguments : List Value}
    {answer : Except Failure Value}
    (ran : session.apply fuel function arguments = some (answer, next)) :
    next = { session with machine := next.machine } ∧
      ((∃ value, answer = .ok value ∧
        Evaluation.apply fuel function arguments session.machine = .done value next.machine) ∨
      ∃ failure, answer = .error failure ∧
        Evaluation.apply fuel function arguments session.machine =
          .failed failure next.machine) := by
  unfold Session.apply at ran
  cases ended : Evaluation.apply fuel function arguments session.machine with
  | done value =>
      rw [ended] at ran
      cases ran
      exact ⟨rfl, .inl ⟨value, rfl, rfl⟩⟩
  | failed failure =>
      rw [ended] at ran
      cases ran
      exact ⟨rfl, .inr ⟨failure, rfl, rfl⟩⟩
  | exhausted =>
      rw [ended] at ran
      cases ran

/-- A text that does not parse changes nothing, and any other one is run. -/
theorem execute_cases {fuel : Nat} {source : String} {answer : Except RunError Value}
    (ran : session.execute fuel source = some (answer, next)) :
    (∃ error, parse source = .error error ∧ answer = .error (.parse error) ∧ next = session) ∨
      ∃ program inner, parse source = .ok program ∧
        session.run fuel program = some (inner, next) ∧ answer = inner.mapError .failure := by
  unfold Session.execute at ran
  cases parsed : parse source with
  | error error =>
      rw [parsed] at ran
      cases ran
      exact .inl ⟨error, rfl, rfl, rfl⟩
  | ok program =>
      rw [parsed] at ran
      obtain ⟨⟨inner, last⟩, finished, same⟩ := Option.map_eq_some_iff.mp ran
      cases same
      exact .inr ⟨program, inner, rfl, finished, rfl⟩

/-- The answer of a run is allowed. -/
def Discipline.Allows (discipline : Discipline) (session : Session) :
    Except Failure Value → Prop
  | .ok value => discipline.Holds session.machine value
  | .error failure => discipline.Fails session.machine failure

theorem run_sound {fuel : Nat} {program : Block} {answer : Except Failure Value}
    (sound : discipline.Sound session.machine)
    (proper : discipline.lenient ∨ Statement.AllProper program)
    (ran : session.run fuel program = some (answer, next)) :
    discipline.Keeps session.machine next.machine ∧ discipline.Allows next answer := by
  have ends := Evaluation.run_ends fuel sound proper
  obtain ⟨_, ⟨value, rfl, ended⟩ | ⟨failure, rfl, ended⟩⟩ := run_cases ran
  all_goals
    rw [ended] at ends
    exact ends

theorem apply_sound {fuel : Nat} {function : Value} {arguments : List Value}
    {answer : Except Failure Value} (sound : discipline.Sound session.machine)
    (holds : discipline.Holds session.machine function)
    (given : discipline.HoldsAll session.machine arguments)
    (ran : session.apply fuel function arguments = some (answer, next)) :
    discipline.Keeps session.machine next.machine ∧ discipline.Allows next answer := by
  have ends := Evaluation.apply_calls fuel _ function arguments sound holds given
  obtain ⟨_, ⟨value, rfl, ended⟩ | ⟨failure, rfl, ended⟩⟩ := apply_cases ran
  all_goals
    rw [ended] at ends
    exact ends

theorem execute_sound {fuel : Nat} {source : String} {answer : Except RunError Value}
    (sound : discipline.Sound session.machine)
    (ran : session.execute fuel source = some (answer, next)) :
    discipline.Sound next.machine := by
  rcases execute_cases ran with ⟨_, _, _, rfl⟩ | ⟨program, inner, parsed, finished, _⟩
  · exact sound
  · exact (run_sound sound (.inr (parse_proper parsed)) finished).1.1

end LuaCore
