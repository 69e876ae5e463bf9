import LuaCore.Proofs.Accounting

/-!
Unwinding: how a failure comes from the place where it is raised to the end of a run. On its way
through the activities it meets the functions that are active, the innermost one first. That one
puts its name to a misuse and no other one does, and what was caught before has left nothing behind.
-/

namespace LuaCore

open Evaluation

/-- The activity makes the failure: it fails, and nothing that it enters does. -/
structure Raises (activity : Activity) (failure : Failure) : Prop where
  fails : activity.failure? = some failure
  quiet : ∀ inner, Enters activity inner → inner.failure? = none

/-- The failure of the first activity has come out of the second one, in so many active functions,
of which the innermost one comes first. All that is in between fails, so that nothing catches it. -/
inductive Unwinds (first : Activity) : List Closure → Activity → Prop where
  | start {failure : Failure} (fails : first.failure? = some failure) : Unwinds first [] first
  | enters {active : List Closure} {middle inner : Activity} {failure : Failure}
      (unwinds : Unwinds first active middle) (enters : Enters middle inner)
      (same : ∀ closure, ¬ Activates middle closure inner)
      (fails : inner.failure? = some failure) : Unwinds first active inner
  | activates {active : List Closure} {middle inner : Activity} {closure : Closure}
      {failure : Failure} (unwinds : Unwinds first active middle)
      (activates : Activates middle closure inner) (fails : inner.failure? = some failure) :
      Unwinds first (closure :: active) inner

section

variable {first middle inner : Activity} {active : List Closure} {closure : Closure}
  {failure : Failure}

theorem unwinds_running (unwinds : Unwinds first active inner) : Running first active inner := by
  induction unwinds with
  | start => exact .start
  | enters _ enters same _ ih => exact .enters ih enters same
  | activates _ activates _ ih => exact .activates ih activates

theorem unwinds_fails (unwinds : Unwinds first active inner) :
    ∃ failure, inner.failure? = some failure := by
  cases unwinds with
  | start fails | enters _ _ _ fails | activates _ _ fails => exact ⟨_, fails⟩

theorem activates_enters (activates : Activates middle closure inner) : Enters middle inner := by
  cases activates with
  | body found enters => exact .activation found enters

theorem fails_staged (fails : inner.failure? = some failure) : Staged inner := by
  obtain ⟨⟨reason, after⟩, ended, _⟩ := Option.bind_eq_some_iff.mp fails
  exact activity_staged (Activity.machine_ended ended)

/-- Where a failure is raised it has no name yet. -/
theorem raises_fresh (raises : Raises inner failure) : failure.IsFresh :=
  (fails_staged raises.fails).raises raises.quiet failure raises.fails

/-- Every failure is raised somewhere. -/
theorem unwinds_raises (unwinds : Unwinds first active middle) :
    ∃ active origin failure, Unwinds first active origin ∧ Raises origin failure := by
  induction middle using enters_induction generalizing active with
  | step middle ih =>
      by_cases further : ∃ inner failure, Enters middle inner ∧ inner.failure? = some failure
      · obtain ⟨inner, failure, enters, fails⟩ := further
        by_cases activated : ∃ closure, Activates middle closure inner
        · obtain ⟨closure, activates⟩ := activated
          exact ih inner enters (.activates unwinds activates fails)
        · exact ih inner enters (.enters unwinds enters (not_exists.mp activated) fails)
      · obtain ⟨failure, fails⟩ := unwinds_fails unwinds
        refine ⟨active, middle, failure, unwinds, fails, ?_⟩
        intro inner enters
        cases raised : inner.failure? with
        | none => rfl
        | some reason => exact absurd ⟨inner, reason, enters, raised⟩ further

/-! Names. -/

/-- A misuse that has no name yet gets this one, if it is one. -/
def Failure.named (name : Option String) : Failure → Failure
  | misuse place value function => misuse place value (function.or name)
  | failure => failure

theorem leaving_named (name : String) : failure.leaving name = failure.named (some name) := by
  cases failure with
  | misuse place value function => cases function <;> rfl
  | stray | native => rfl

theorem named_none : failure.named none = failure := by
  cases failure with
  | misuse place value function => exact congrArg (Failure.misuse place value) Option.or_none
  | stray | native => rfl

theorem named_twice (first second : Option String) :
    (failure.named first).named second = failure.named (first.or second) := by
  cases failure with
  | misuse place value function =>
      exact congrArg (Failure.misuse place value) Option.or_assoc
  | stray | native => rfl

/-- Only a script function changes a failure, and only an attempt can keep it. -/
theorem enters_outlet (enters : Enters middle inner)
    (same : ∀ closure, ¬ Activates middle closure inner) :
    middle.outlet failure = some failure ∨ middle.outlet failure = none := by
  cases enters with
  | activation found enters => exact absurd (.body found enters) (same _)
  | attempt found =>
      simp only [Activity.outlet, found]
      cases failure.isMisuse
      · exact .inl rfl
      · exact .inr rfl
  | once found | twice found => exact .inl (by simp only [Activity.outlet, found])
  | part part =>
      cases part <;> exact .inl rfl
  | call | following | loop | round | nextRound => exact .inl rfl

theorem activates_outlet (activates : Activates middle closure inner) :
    middle.outlet failure = some (failure.leaving closure.errorName) := by
  cases activates with
  | body found enters => simp only [Activity.outlet, found]

/-- A failure that has no name gets that of the innermost function. -/
theorem unwinds_named (unwinds : Unwinds first active inner)
    (fails : inner.failure? = some failure) :
    first.failure? = some (failure.named (active.head?.map Closure.errorName)) := by
  induction unwinds generalizing failure with
  | start =>
      rw [fails]
      exact congrArg some named_none.symm
  | @enters active middle inner _ unwinds enters same _ ih =>
      obtain ⟨reason, failed⟩ := unwinds_fails unwinds
      have relayed := (fails_staged failed).relays inner enters _ fails
      rcases enters_outlet enters same with passed | caught
      · exact ih (relayed.trans passed)
      · cases failed.symm.trans (relayed.trans caught)
  | @activates active middle inner closure _ unwinds activates _ ih =>
      obtain ⟨reason, failed⟩ := unwinds_fails unwinds
      have relayed := (fails_staged failed).relays inner (activates_enters activates) _ fails
      rw [activates_outlet activates, leaving_named] at relayed
      rw [ih relayed, named_twice]
      rfl

end

namespace Session

/-- What goes on in a run or in a call of the session fails. -/
inductive Fails (session : Session) : Activity → Failure → Prop where
  | execute {fuel : Nat} {source : String} {program : Block} {failure : Failure} {next : Session}
      (parsed : parse source = .ok program)
      (ran : session.execute fuel source = some (.error (.failure failure), next)) :
      Fails session ⟨fuel, session.machine, [{}], .executeBlock program⟩ failure
  | run {fuel : Nat} {program : Block} {failure : Failure} {next : Session}
      (ran : session.run fuel program = some (.error failure, next)) :
      Fails session ⟨fuel, session.machine, [{}], .executeBlock program⟩ failure
  | apply {fuel : Nat} {function : Value} {arguments : List Value} {failure : Failure}
      {next : Session}
      (ran : session.apply fuel function arguments = some (.error failure, next)) :
      Fails session ⟨fuel, session.machine, [], .apply function arguments⟩ failure

end Session

section

variable {session next : Session} {fuel : Nat} {failure : Failure}

theorem run_fails {program : Block}
    (ran : session.run fuel program = some (.error failure, next)) :
    (⟨fuel, session.machine, [{}], .executeBlock program⟩ : Activity).failure? = some failure := by
  rcases (run_cases ran).2 with ⟨value, same, _⟩ | ⟨reason, same, failed⟩
  · cases same
  · cases same
    change Outcome.failure? (executeBlock (apply fuel) fuel {} program session.machine) = _
    change Eval.bind (executeBlock (apply fuel) fuel {} program) _ session.machine = _ at failed
    unfold Eval.bind at failed
    cases ended : executeBlock (apply fuel) fuel {} program session.machine with
    | failed reason after =>
        rw [ended] at failed
        cases failed
        rfl
    | done | exhausted =>
        rw [ended] at failed
        cases failed

theorem apply_fails {function : Value} {arguments : List Value}
    (ran : session.apply fuel function arguments = some (.error failure, next)) :
    (⟨fuel, session.machine, [], .apply function arguments⟩ : Activity).failure? =
      some failure := by
  rcases (apply_cases ran).2 with ⟨value, same, _⟩ | ⟨reason, same, failed⟩
  · cases same
  · cases same
    exact congrArg Outcome.failure? failed

theorem session_fails {first : Activity} (fails : session.Fails first failure) :
    session.Busy first ∧ first.failure? = some failure := by
  cases fails with
  | run ran => exact ⟨.run _ _, run_fails ran⟩
  | apply ran => exact ⟨.apply _ _ _, apply_fails ran⟩
  | execute parsed ran =>
      refine ⟨.run _ _, ?_⟩
      unfold Session.execute at ran
      rw [parsed] at ran
      obtain ⟨⟨answer, last⟩, finished, same⟩ := Option.map_eq_some_iff.mp ran
      cases answer with
      | ok value => cases same
      | error reason =>
          cases same
          exact run_fails finished

end

/-- A misuse that a run or a call ends with was raised somewhere in it. Wherever it has come from,
the functions on its way are all that were active there, and its function is the innermost one of
them, if there is any. -/
theorem misuse_names_innermost {session : Session} {first : Activity} {place : Misuse}
    {value : Value} {function : Option String}
    (fails : session.Fails first (.misuse place value function)) :
    (∃ active origin failure, Unwinds first active origin ∧ Raises origin failure) ∧
    ∀ active origin failure, Unwinds first active origin → Raises origin failure →
      Running first active origin ∧
      origin.machine.depth = session.machine.depth + active.length ∧
      failure = .misuse place value none ∧
      function = active.head?.map Closure.errorName := by
  obtain ⟨busy, failed⟩ := session_fails fails
  refine ⟨unwinds_raises (.start failed), ?_⟩
  intro active origin failure unwinds raises
  have running := unwinds_running unwinds
  refine ⟨running, ?_, ?_⟩
  · rw [running_depth running, busy_machine busy]
  · have fresh := raises_fresh raises
    have named := failed.symm.trans (unwinds_named unwinds raises.fails)
    cases failure with
    | misuse place' value' function' =>
        cases (show function' = none from fresh)
        cases named
        exact ⟨rfl, rfl⟩
    | stray | native => cases named

/-- An error that was caught before leaves no name, and the natives and functions around a nameless
function do not give it theirs. -/
theorem misuse_names_innermost_nameless :
    let session := ((Session.bare 0).define "try" .attempt).define "twice" .twice
    let nameless : Expression := .function ["x"] [.evaluate (.binary .nil .add (.name "x"))]
    let program : Block := [.function "caught" [] [.evaluate (.call .nil [])],
      .function "around" [] [.evaluate (.call (.name "try") [.name "caught"]),
        .evaluate (.call (.name "twice") [nameless, .nil])],
      .evaluate (.call (.name "around") [])]
    ∃ next first active origin,
      session.run 4 program =
        some (.error (.misuse .arithmetic .nil (some "<anonymous>")), next) ∧
      session.Fails first (.misuse .arithmetic .nil (some "<anonymous>")) ∧
      Unwinds first active origin ∧ Raises origin (.misuse .arithmetic .nil none) ∧
      Running first active origin ∧ origin.machine.depth = active.length ∧
      active.head?.map Closure.errorName = some "<anonymous>" := by
  intro session nameless program
  have ran : session.run 4 program = some (_, _) := rfl
  have fails : session.Fails _ _ := .run ran
  obtain ⟨⟨active, origin, failure, unwinds, raises⟩, named⟩ := misuse_names_innermost fails
  obtain ⟨running, depth, rfl, function⟩ := named active origin failure unwinds raises
  exact ⟨_, _, active, origin, ran, fails, unwinds, raises, running,
    depth.trans (Nat.zero_add _), function.symm⟩

end LuaCore
