import Mathlib
import LuaCore.Proofs.Fuel
import LuaCore.Proofs.Keeping

/-!
Safety: programs of texts, run one after the other on one machine with the library, never meet a
stray part of a tree and never have a reference to something that is not there. What they end with
is a value, or a misuse of a value that its place does reject.
-/

namespace LuaCore

/-- Proper programs know what is stored, and nothing is demanded beyond that. -/
def Discipline.strict : Discipline where
  knows := Machine.Stores
  demands _ := True
  moves _ _ := True
  lenient := False
  moves_refl _ := True.intro
  moves_trans _ _ := True.intro
  knows_alike alike := Machine.stores_alike alike _
  knows_newCell value object _ := Machine.stores_newCell _ value object
  knows_newGlobal _ stores := (Machine.stores_newCell _ _ _).mpr (.inl stores)
  newGlobal_knows _ stores := (Machine.stores_newCell _ _ _).mp stores
  knows_newTable object _ := Machine.stores_newTable _ object
  knows_newFunction callable object _ := Machine.stores_newFunction _ callable object
  quiet _ _ := ⟨True.intro, True.intro⟩
  depth _ _ := True.intro
  activation _ := True.intro
  writeCell _ _ _ := ⟨True.intro, True.intro⟩
  newCell _ _ := ⟨True.intro, True.intro⟩
  newGlobal _ _ _ := ⟨True.intro, True.intro⟩
  newTable _ := ⟨True.intro, True.intro⟩
  newFunction _ _ := ⟨True.intro, True.intro⟩
  setTable _ _ _ _ := ⟨True.intro, True.intro⟩

/-- The sessions that come of a session with the library when texts are executed, whatever these
end with. -/
inductive Executed (verbosity : Nat) : Session → Prop where
  | start : Executed verbosity (Session.start verbosity)
  | execute {session next : Session} {fuel : Nat} {source : String}
      {answer : Except RunError Value} (before : Executed verbosity session)
      (ran : session.execute fuel source = some (answer, next)) : Executed verbosity next

/-- What a program may end with: a value that refers to nothing missing, or a misuse of a value
that its place rejects. -/
inductive Safe (session : Session) : Except RunError Value → Prop where
  | value (value : Value)
      (stored : ∀ object, value.object? = some object → session.machine.Stores object) :
      Safe session (.ok value)
  | misuse (place : Misuse) (value : Value) (function : Option String)
      (rejects : place.Rejects value) :
      Safe session (.error (.failure (.misuse place value function)))

theorem bare_sound (verbosity : Nat) :
    Discipline.strict.Sound (Session.bare verbosity).machine := by
  refine ⟨True.intro, ?_, ?_, ?_⟩
  · intro object target stores _
    cases object <;> cases stores
  · intro name cell value member
    cases member
  · intro id stores
    cases stores

theorem start_sound (verbosity : Nat) :
    Discipline.strict.Sound (Session.start verbosity).machine := by
  have printing := define_sound "print" .print (bare_sound verbosity) (.inr True.intro)
  have typing := define_sound "type" .type printing (.inr True.intro)
  exact define_sound "tostring" .tostring typing (.inr True.intro)

theorem executed_sound {verbosity : Nat} {session : Session}
    (executed : Executed verbosity session) : Discipline.strict.Sound session.machine := by
  induction executed with
  | start => exact start_sound verbosity
  | execute before ran ih => exact execute_sound ih ran

theorem allowed_safe {session : Session} {answer : Except Failure Value}
    (allowed : Discipline.strict.Allows session answer) :
    Safe session (answer.mapError .failure) := by
  cases answer with
  | ok value => exact .value value allowed
  | error failure =>
      cases failure with
      | misuse place value function => exact .misuse place value function allowed.1
      | stray | native => cases allowed

-- The trees that are stored in functions come from earlier texts. That they are proper is part of
-- what is sound about the machine, so that nothing has to be said about the texts here.
theorem execute_safe_once {verbosity fuel : Nat} {session next : Session} {source : String}
    {program : Block} {answer : Except RunError Value} (executed : Executed verbosity session)
    (parsed : parse source = .ok program)
    (ran : session.execute fuel source = some (answer, next)) : Safe next answer := by
  unfold Session.execute at ran
  rw [parsed] at ran
  obtain ⟨⟨inner, last⟩, finished, same⟩ := Option.map_eq_some_iff.mp ran
  cases same
  have proper := parse_proper parsed
  exact allowed_safe (run_sound (executed_sound executed) (.inr proper) finished).2

/-- A text that parses, executed after any others, either never ends or has a safe answer, which
is the same with all fuel that lasts. -/
theorem execute_safe {verbosity : Nat} {session : Session} (executed : Executed verbosity session)
    {source : String} {program : Block} (parsed : parse source = .ok program) :
    (∀ fuel, session.execute fuel source = none) ∨
    ∃ answer next, Safe next answer ∧
      ∃ bound, ∀ fuel, bound ≤ fuel → session.execute fuel source = some (answer, next) := by
  -- Whether a text ends cannot be decided, but it does or it does not.
  by_cases endless : ∀ fuel, session.execute fuel source = none
  · exact .inl endless
  · obtain ⟨bound, ends⟩ := Classical.not_forall.mp endless
    obtain ⟨⟨answer, next⟩, ran⟩ := Option.ne_none_iff_exists'.mp ends
    refine .inr ⟨answer, next, execute_safe_once executed parsed ran, bound, ?_⟩
    intro fuel less
    exact execute_more less ran

theorem execute_safe_unbound :
    parse "x()" = .ok [.evaluate (.call (.name "x") [])] ∧
    ((∀ fuel, (Session.start 0).execute fuel "x()" = none) ∨
      ∃ answer next, Safe next answer ∧
        ∃ bound, ∀ fuel, bound ≤ fuel →
          (Session.start 0).execute fuel "x()" = some (answer, next)) := by
  have parsed : parse "x()" = .ok [.evaluate (.call (.name "x") [])] := by cbv
  exact ⟨parsed, execute_safe .start parsed⟩

end LuaCore
