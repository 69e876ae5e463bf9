import LuaCore.Session

/-!
Fuel only decides whether there is an outcome. A computation with more fuel goes the same way, so
that an outcome once reached is reached with all further fuel.
-/

namespace LuaCore

/-- The longer computation has every outcome that the other one has. -/
def Eval.Prolongs {α : Type} (longer body : Eval α) : Prop :=
  ∀ machine, body machine ≠ .exhausted → longer machine = body machine

namespace Evaluation

open Eval

section

variable {α β : Type}

theorem prolongs_refl (body : Eval α) : Prolongs body body := by
  intro machine _
  rfl

theorem prolongs_bind {longer first : Eval α} {further next : α → Eval β}
    (starts : Prolongs longer first) (goes : ∀ value, Prolongs (further value) (next value)) :
    Prolongs (Eval.bind longer further) (Eval.bind first next) := by
  intro machine finished
  unfold Eval.bind at finished ⊢
  cases ended : first machine with
  | done value after =>
      rw [ended] at finished
      rw [starts machine (by rw [ended]; simp), ended]
      exact goes value after finished
  | failed failure after =>
      rw [starts machine (by rw [ended]; simp), ended]
  | exhausted =>
      rw [ended] at finished
      exact absurd rfl finished

theorem prolongs_finish {longer body : Eval α} (failure : Failure → Failure)
    (leave : Machine → Machine) (starts : Prolongs longer body) :
    Prolongs (Eval.finish longer failure leave) (Eval.finish body failure leave) := by
  intro machine finished
  unfold Eval.finish at finished ⊢
  cases ended : body machine with
  | done | failed => rw [starts machine (by rw [ended]; simp), ended]
  | exhausted =>
      rw [ended] at finished
      exact absurd rfl finished

theorem prolongs_recover {longer body : Eval α} (handle : Failure → α)
    (starts : Prolongs longer body) :
    Prolongs (Eval.recover longer handle) (Eval.recover body handle) := by
  intro machine finished
  unfold Eval.recover at finished ⊢
  cases ended : body machine with
  | done | failed => rw [starts machine (by rw [ended]; simp), ended]
  | exhausted =>
      rw [ended] at finished
      exact absurd rfl finished

end

/-- A body that is run in other scopes. -/
theorem prolongs_rounds {longer body : Scope → Eval Flow} (name : String) (limit step : Float)
    (starts : ∀ scope, Prolongs (longer scope) (body scope)) {fuel more : Nat} (less : fuel ≤ more)
    (counter : Float) (scope : Scope) :
    Prolongs (rounds longer name limit step more counter scope)
      (rounds body name limit step fuel counter scope) := by
  induction fuel generalizing more counter scope with
  | zero =>
      intro machine finished
      exact absurd rfl finished
  | succ fuel ih =>
      obtain ⟨more, rfl⟩ := Nat.exists_eq_add_of_le' (Nat.lt_of_lt_of_le (Nat.succ_pos fuel) less)
      rw [rounds, rounds]
      by_cases inside : counter ≤ limit
      · rw [if_pos inside, if_pos inside]
        apply prolongs_bind (prolongs_refl _)
        intro bound
        apply prolongs_bind (starts bound)
        intro flow
        cases flow with
        | next after => exact ih (Nat.le_of_succ_le_succ less) (counter + step) after
        | result value => exact prolongs_refl _
      · rw [if_neg inside, if_neg inside]
        exact prolongs_refl _

theorem prolongs_branch {condition' condition : Eval Value} {body' body behind' behind : Eval Flow}
    (asks : Prolongs condition' condition) (runs : Prolongs body' body)
    (goes : Prolongs behind' behind) :
    Prolongs (Eval.bind condition' fun value => if value.isTruthy then body' else behind')
      (Eval.bind condition fun value => if value.isTruthy then body else behind) := by
  apply prolongs_bind asks
  intro value
  by_cases truthy : value.isTruthy
  · rw [if_pos truthy, if_pos truthy]
    exact runs
  · rw [if_neg truthy, if_neg truthy]
    exact goes

variable {longer call : Caller} {fuel more : Nat}

-- Fuel is only looked at by calls and by rounds. Every other step is the same computation on both
-- sides, as far as its parts are.
mutual

theorem prolongs_evaluate (calls : ∀ function arguments,
    Prolongs (longer function arguments) (call function arguments)) (less : fuel ≤ more)
    {scope : Scope} {expression : Expression} :
    Prolongs (evaluate longer more scope expression) (evaluate call fuel scope expression) := by
  cases expression with
  | table fields =>
      rw [evaluate, evaluate]
      apply prolongs_bind (prolongs_refl _)
      intro id
      apply prolongs_bind (prolongs_fillTable calls less)
      intro _
      exact prolongs_refl _
  | binary lhs operation rhs =>
      apply prolongs_bind (prolongs_evaluate calls less)
      intro left
      apply prolongs_bind (prolongs_evaluate calls less)
      intro right
      exact prolongs_refl _
  | call callee arguments =>
      apply prolongs_bind (prolongs_evaluate calls less)
      intro function
      cases function with
      | function id =>
          apply prolongs_bind (prolongs_evaluateAll calls less)
          intro values
          exact calls _ values
      | _ => exact prolongs_refl _
  | dot target name =>
      apply prolongs_bind (prolongs_evaluate calls less)
      intro value
      exact prolongs_refl _
  | index target key =>
      apply prolongs_bind (prolongs_evaluate calls less)
      intro value
      apply prolongs_bind (prolongs_refl _)
      intro id
      apply prolongs_bind (prolongs_evaluate calls less)
      intro key
      exact prolongs_refl _
  | _ => exact prolongs_refl _

theorem prolongs_evaluateAll (calls : ∀ function arguments,
    Prolongs (longer function arguments) (call function arguments)) (less : fuel ≤ more)
    {scope : Scope} {expressions : List Expression} :
    Prolongs (evaluateAll longer more scope expressions)
      (evaluateAll call fuel scope expressions) := by
  cases expressions with
  | nil => exact prolongs_refl _
  | cons expression rest =>
      apply prolongs_bind (prolongs_evaluate calls less)
      intro value
      apply prolongs_bind (prolongs_evaluateAll calls less)
      intro values
      exact prolongs_refl _

theorem prolongs_fillTable (calls : ∀ function arguments,
    Prolongs (longer function arguments) (call function arguments)) (less : fuel ≤ more)
    {scope : Scope} {id position : Nat} {fields : List Field} :
    Prolongs (fillTable longer more scope id position fields)
      (fillTable call fuel scope id position fields) := by
  cases fields with
  | nil => exact prolongs_refl _
  | cons field rest =>
      cases field with
      | positional value | named name value =>
          apply prolongs_bind (prolongs_evaluate calls less)
          intro value
          apply prolongs_bind (prolongs_refl _)
          intro _
          exact prolongs_fillTable calls less
      | keyed key value =>
          apply prolongs_bind (prolongs_evaluate calls less)
          intro given
          apply prolongs_bind (prolongs_refl _)
          intro key
          apply prolongs_bind (prolongs_evaluate calls less)
          intro value
          apply prolongs_bind (prolongs_refl _)
          intro _
          exact prolongs_fillTable calls less

theorem prolongs_executeBlock (calls : ∀ function arguments,
    Prolongs (longer function arguments) (call function arguments)) (less : fuel ≤ more)
    {scope : Scope} {statements : List Statement} :
    Prolongs (executeBlock longer more scope statements)
      (executeBlock call fuel scope statements) := by
  cases statements with
  | nil => exact prolongs_refl _
  | cons statement rest =>
      apply prolongs_bind (prolongs_execute calls less)
      intro flow
      cases flow with
      | next scope => exact prolongs_executeBlock calls less
      | result value => exact prolongs_refl _

theorem prolongs_executeBranches (calls : ∀ function arguments,
    Prolongs (longer function arguments) (call function arguments)) (less : fuel ≤ more)
    {scope : Scope} {further otherwise : Eval Flow} {branches : List Branch}
    (last : Prolongs further otherwise) :
    Prolongs (executeBranches longer more scope further branches)
      (executeBranches call fuel scope otherwise branches) := by
  cases branches with
  | nil => exact last
  | cons branch rest =>
      obtain ⟨condition, body⟩ := branch
      exact prolongs_branch (prolongs_evaluate calls less) (prolongs_executeBlock calls less)
        (prolongs_executeBranches calls less last)

theorem prolongs_execute (calls : ∀ function arguments,
    Prolongs (longer function arguments) (call function arguments)) (less : fuel ≤ more)
    {scope : Scope} {statement : Statement} :
    Prolongs (execute longer more scope statement) (execute call fuel scope statement) := by
  cases statement with
  | assign target value =>
      rw [execute, execute]
      apply prolongs_bind (prolongs_refl _)
      intro _
      apply prolongs_bind (prolongs_evaluate calls less)
      intro value
      cases target with
      | dot target name =>
          apply prolongs_bind (prolongs_evaluate calls less)
          intro value
          exact prolongs_refl _
      | index target key =>
          apply prolongs_bind (prolongs_evaluate calls less)
          intro value
          apply prolongs_bind (prolongs_refl _)
          intro id
          apply prolongs_bind (prolongs_evaluate calls less)
          intro key
          exact prolongs_refl _
      | _ => exact prolongs_refl _
  | declare name value | evaluate value | returns value =>
      apply prolongs_bind (prolongs_refl _)
      intro _
      apply prolongs_bind (prolongs_evaluate calls less)
      intro value
      exact prolongs_refl _
  | choose first others otherwise =>
      obtain ⟨condition, body⟩ := first
      cases otherwise with
      | none =>
          rw [execute, execute]
          apply prolongs_bind (prolongs_refl _)
          intro _
          exact prolongs_branch (prolongs_evaluate calls less) (prolongs_executeBlock calls less)
            (prolongs_executeBranches calls less (prolongs_refl _))
      | some otherwise =>
          rw [execute, execute]
          apply prolongs_bind (prolongs_refl _)
          intro _
          exact prolongs_branch (prolongs_evaluate calls less) (prolongs_executeBlock calls less)
            (prolongs_executeBranches calls less (prolongs_executeBlock calls less))
  | loop counter start limit step body =>
      rw [execute, execute]
      apply prolongs_bind (prolongs_refl _)
      intro _
      apply prolongs_bind (prolongs_evaluate calls less)
      intro value
      apply prolongs_bind (prolongs_refl _)
      intro start
      apply prolongs_bind (prolongs_evaluate calls less)
      intro value
      apply prolongs_bind (prolongs_refl _)
      intro limit
      have last (step : Float) :
          Prolongs (rounds (fun scope => executeBlock longer more scope body) counter limit step
              more start scope)
            (rounds (fun scope => executeBlock call fuel scope body) counter limit step
              fuel start scope) :=
        prolongs_rounds counter limit step (fun _ => prolongs_executeBlock calls less) less start
          scope
      cases step with
      | none =>
          apply prolongs_bind (prolongs_refl _)
          intro step
          apply prolongs_bind (last step)
          intro flow
          exact prolongs_refl _
      | some step =>
          apply prolongs_bind (prolongs_evaluate calls less)
          intro value
          apply prolongs_bind (prolongs_refl _)
          intro step
          apply prolongs_bind (last step)
          intro flow
          exact prolongs_refl _
  | _ => exact prolongs_refl _

end

theorem prolongs_native {native : Native} {arguments : List Value}
    (calls : ∀ function arguments,
      Prolongs (longer function arguments) (call function arguments)) :
    Prolongs (native.run longer arguments) (native.run call arguments) := by
  cases native with
  | twice =>
      rcases arguments with _ | ⟨function, _ | ⟨value, rest⟩⟩
      · exact prolongs_refl _
      · exact prolongs_refl _
      · apply prolongs_bind (calls function [value])
        intro once
        exact calls function [once]
  | attempt =>
      cases arguments with
      | nil => exact prolongs_refl _
      | cons function rest => exact prolongs_recover _ (calls function rest)
  | _ => exact prolongs_refl _

theorem prolongs_apply {fuel more : Nat} (less : fuel ≤ more) (function : Value)
    (arguments : List Value) :
    Prolongs (apply more function arguments) (apply fuel function arguments) := by
  induction fuel generalizing more function arguments with
  | zero =>
      intro machine finished
      exact absurd rfl finished
  | succ fuel ih =>
      obtain ⟨more, rfl⟩ := Nat.exists_eq_add_of_le' (Nat.lt_of_lt_of_le (Nat.succ_pos fuel) less)
      have less := Nat.le_of_succ_le_succ less
      cases function with
      | function id =>
          rw [apply, apply]
          apply prolongs_bind (prolongs_refl _)
          intro callable
          cases callable with
          | native name native => exact prolongs_native (ih less)
          | closure closure =>
              apply prolongs_bind (prolongs_refl _)
              intro scope
              refine prolongs_bind
                (prolongs_finish _ _ (prolongs_executeBlock (ih less) less)) ?_
              intro flow
              exact prolongs_refl _
      | _ => exact prolongs_refl _

theorem prolongs_run {fuel more : Nat} (less : fuel ≤ more) (program : Block) :
    Prolongs (run more program) (run fuel program) := by
  apply prolongs_bind (prolongs_executeBlock (prolongs_apply less) less)
  intro flow
  exact prolongs_refl _

end Evaluation

theorem run_more {fuel more : Nat} (less : fuel ≤ more) {program : Block} {session next : Session}
    {answer : Except Failure Value} (ran : session.run fuel program = some (answer, next)) :
    session.run more program = some (answer, next) := by
  have longer := Evaluation.prolongs_run less program session.machine
  unfold Session.run at ran ⊢
  cases ended : Evaluation.run fuel program session.machine with
  | done | failed =>
      rw [ended] at ran
      rw [longer (by rw [ended]; simp), ended]
      exact ran
  | exhausted =>
      rw [ended] at ran
      cases ran

/-- An answer of a text stays its answer. -/
theorem execute_more {fuel more : Nat} (less : fuel ≤ more) {source : String}
    {session next : Session} {answer : Except RunError Value}
    (ran : session.execute fuel source = some (answer, next)) :
    session.execute more source = some (answer, next) := by
  unfold Session.execute at ran ⊢
  cases parsed : parse source with
  | error error =>
      rw [parsed] at ran
      exact ran
  | ok program =>
      rw [parsed] at ran
      obtain ⟨last, inner, same⟩ := Option.map_eq_some_iff.mp ran
      exact Option.map_eq_some_iff.mpr ⟨last, run_more less inner, same⟩

end LuaCore
