import LuaCore.Proofs.Activity

/-!
Disciplines in the course of a run. A lenient discipline that holds when an activity starts holds
at the start and at the end of every activity that is entered inside of it, for the machine and for
all the scopes that are in use there.
-/

namespace LuaCore

open Evaluation

namespace Discipline

variable {discipline : Discipline} {fuel : Nat} {machine after : Machine} {scope : Scope}

/-- The program may do the task. -/
def Permits (discipline : Discipline) (machine : Machine) : Task → Prop
  | .fill id _ _ => discipline.knows machine (.table id)
  | .apply function arguments =>
      discipline.Holds machine function ∧ discipline.HoldsAll machine arguments
  | _ => True

/-- The program may run in all of the scopes. -/
def SeesAll (discipline : Discipline) (machine : Machine) (scopes : List Scope) : Prop :=
  ∀ scope ∈ scopes, discipline.Sees machine scope

/-- The program may do what the activity does. -/
structure Ready (discipline : Discipline) (activity : Activity) : Prop where
  sound : discipline.Sound activity.machine
  sees : discipline.SeesAll activity.machine activity.scopes
  permits : discipline.Permits activity.machine activity.task

/-- An entry is written to a table that was known before. -/
theorem entry_keeps {id : Nat} {key : Key} {value : Value} (keeps : discipline.Keeps machine after)
    (holds : discipline.Holds after value) (known : discipline.knows machine (.table id))
    (stored : key.Stored) :
    discipline.Keeps machine (after.setTable id key value) ∧
      discipline.knows (after.setTable id key value) (.table id) := by
  have known := keeps.2.known _ known
  have written := keeps_setTable keeps.1 known stored holds
  exact ⟨keeps_trans keeps written, written.2.known _ known⟩

section

variable (lenient : discipline.lenient) (sound : discipline.Sound machine)
  (sees : discipline.Sees machine scope)

include lenient sound sees

theorem gives_keeps {expression : Expression} {value : Value}
    (gives : Gives fuel scope machine expression value after) :
    discipline.Keeps machine after ∧ discipline.Holds after value := by
  have ends : discipline.Ends machine discipline.Holds
      (evaluate (apply fuel) fuel scope expression machine) :=
    evaluate_ends (apply_calls fuel) sound sees (.inl lenient)
  rw [gives] at ends
  exact ends

theorem gives_twice {middle : Machine} {expression further : Expression} {value other : Value}
    (gives : Gives fuel scope machine expression value middle)
    (gives' : Gives fuel scope middle further other after) :
    discipline.Keeps machine after ∧ discipline.Holds after other := by
  obtain ⟨keeps, _⟩ := gives_keeps lenient sound sees gives
  obtain ⟨keeps', holds⟩ := gives_keeps lenient keeps.1 (sees_later keeps.2 sees) gives'
  exact ⟨keeps_trans keeps keeps', holds⟩

theorem executes_keeps {statement : Statement} {next : Scope}
    (executed : execute (apply fuel) fuel scope statement machine = .done (.next next) after) :
    discipline.Keeps machine after ∧ discipline.Sees after next := by
  have ends : discipline.Ends machine discipline.Leads
      (execute (apply fuel) fuel scope statement machine) :=
    execute_ends (apply_calls fuel) sound sees (.inl lenient)
  rw [executed] at ends
  exact ends

theorem runs_keeps {statements : Block} {next : Scope}
    (executed : executeBlock (apply fuel) fuel scope statements machine =
      .done (.next next) after) :
    discipline.Keeps machine after ∧ discipline.Sees after next := by
  have ends : discipline.Ends machine discipline.Leads
      (executeBlock (apply fuel) fuel scope statements machine) :=
    executeBlock_ends (apply_calls fuel) sound sees (.inl lenient)
  rw [executed] at ends
  exact ends

theorem evaluatesAll_keeps {expressions : List Expression} {values : List Value}
    (given : evaluateAll (apply fuel) fuel scope expressions machine = .done values after) :
    discipline.Keeps machine after ∧ discipline.HoldsAll after values := by
  have ends : discipline.Ends machine discipline.HoldsAll
      (evaluateAll (apply fuel) fuel scope expressions machine) :=
    evaluateAll_ends (apply_calls fuel) sound sees (.inl lenient)
  rw [given] at ends
  exact ends

omit lenient in
/-- The counter of a loop is bound. -/
theorem counter_keeps (name : String) (counter : Float) :
    let next := scope.put machine.cells name (.number counter)
    discipline.Keeps machine { machine with cells := next.2 } ∧
      discipline.Sees { machine with cells := next.2 } next.1 :=
  keeps_put name sound sees (holds_plain rfl)

omit lenient in
theorem begun_keeps (summary : String) :
    discipline.Keeps machine (machine.begin summary) ∧
      discipline.Sees (machine.begin summary) scope := by
  have keeps := keeps_quiet sound (machine.begin_quiet summary)
  exact ⟨keeps, sees_later keeps.2 sees⟩

/-- Between the start of a task and the start of a part of it in the same scope, only earlier parts
are done. -/
theorem part_keeps {task inner : Task} (permits : discipline.Permits machine task)
    (part : Part fuel scope machine task after inner) :
    discipline.Keeps machine after ∧ discipline.Permits after inner := by
  -- What is counted first is on its way before any part.
  have begun {summary : String} {last : Machine}
      (goes : discipline.Sound (machine.begin summary) →
        discipline.Sees (machine.begin summary) scope →
        discipline.Keeps (machine.begin summary) last) : discipline.Keeps machine last := by
    obtain ⟨keeps, sees⟩ := begun_keeps sound sees summary
    exact keeps_trans keeps (goes keeps.1 sees)
  cases part with
  | fields =>
      exact ⟨keeps_newTable sound, (discipline.knows_newTable _ sound.demands).mpr (.inr rfl)⟩
  | lhs | callee | dotted | indexed | first | positional | named | fieldKey | statement
  | nextCondition | otherwise => exact ⟨keeps_refl sound, True.intro⟩
  | rhs gives | arguments gives | key gives | others gives | keyed gives | nextChosen gives
  | nextPassed gives => exact ⟨(gives_keeps lenient sound sees gives).1, True.intro⟩
  | afterPositional gives =>
      obtain ⟨keeps, holds⟩ := gives_keeps lenient sound sees gives
      exact entry_keeps keeps holds permits (.position _)
  | afterNamed gives =>
      obtain ⟨keeps, holds⟩ := gives_keeps lenient sound sees gives
      exact entry_keeps keeps holds permits (name_stored _)
  | afterKeyed gives stands gives' =>
      obtain ⟨keeps, holds⟩ := gives_twice lenient sound sees gives gives'
      exact entry_keeps keeps holds permits (.value stands)
  | assigned | declared | evaluated | returned | condition | start =>
      exact ⟨(begun_keeps sound sees _).1, True.intro⟩
  | dotTarget gives | indexTarget gives | chosen gives | passed gives | limit gives =>
      exact ⟨begun fun sound sees => (gives_keeps lenient sound sees gives).1, True.intro⟩
  | indexKey gives gives' | step gives gives' =>
      exact ⟨begun fun sound sees => (gives_twice lenient sound sees gives gives').1, True.intro⟩

theorem counts_keeps {start limit : Expression} {step : Option Expression}
    {first last width : Float}
    (counts : Counts fuel scope machine start limit step first last width after) :
    discipline.Keeps machine after := by
  cases counts with
  | byOne gives gives' => exact (gives_twice lenient sound sees gives gives').1
  | byStep gives gives' gives'' =>
      obtain ⟨keeps, _⟩ := gives_twice lenient sound sees gives gives'
      have sees := sees_later keeps.2 sees
      exact keeps_trans keeps (gives_keeps lenient keeps.1 sees gives'').1

end

theorem seesAll_later {scopes : List Scope} (later : discipline.Later machine after)
    (sees : discipline.SeesAll machine scopes) : discipline.SeesAll after scopes := by
  intro scope member
  exact sees_later later (sees scope member)

theorem seesAll_cons {scopes : List Scope} (first : discipline.Sees machine scope)
    (others : discipline.SeesAll machine scopes) :
    discipline.SeesAll machine (scope :: scopes) := by
  intro other member
  rcases List.mem_cons.mp member with rfl | member
  · exact first
  · exact others other member

theorem seesAll_tail {scopes : List Scope} (sees : discipline.SeesAll machine (scope :: scopes)) :
    discipline.SeesAll machine scopes :=
  fun other member => sees other (List.mem_cons_of_mem _ member)

theorem enter_keeps {closure : Closure} {arguments : List Value} {id : Nat}
    (sound : discipline.Sound machine) (holds : discipline.Holds machine (.function id))
    (given : discipline.HoldsAll machine arguments)
    (found : machine.callable id = .closure closure)
    (enters : enter closure arguments machine = .done scope after) :
    discipline.Sound after ∧ (∀ object, discipline.knows machine object →
      discipline.knows after object) ∧ discipline.Sees after scope := by
  have sees := sees_capture sound (holds_function.mp holds) found
  obtain ⟨keeps, inside⟩ :=
    keeps_putAll sound sees (@bind_holds _ machine closure.parameters arguments given)
  cases enters
  refine ⟨keeps_depth keeps.1 _, ?_, ?_⟩
  · intro object known
    exact known_depth _ (keeps.2.known object known)
  · intro binding member
    exact known_depth _ (inside binding member)

theorem applies_keeps {function value : Value} {arguments : List Value}
    (sound : discipline.Sound machine) (holds : discipline.Holds machine function)
    (given : discipline.HoldsAll machine arguments)
    (applied : apply fuel function arguments machine = .done value after) :
    discipline.Keeps machine after ∧ discipline.Holds after value := by
  have ends := apply_calls fuel machine function arguments sound holds given
  rw [applied] at ends
  exact ends

theorem holdsAll_one {value : Value} (holds : discipline.Holds machine value) :
    discipline.HoldsAll machine [value] := by
  intro other member
  cases List.mem_singleton.mp member
  exact holds

/-- What one activity enters is as ready as it is itself. -/
theorem enters_ready (lenient : discipline.lenient) {first second : Activity}
    (ready : discipline.Ready first) (enters : Enters first second) :
    discipline.Ready second := by
  obtain ⟨sound, sees, permits⟩ := ready
  cases enters with
  | part part =>
      obtain ⟨keeps, permits⟩ :=
        part_keeps lenient sound (sees _ List.mem_cons_self) permits part
      exact ⟨keeps.1, seesAll_later keeps.2 sees, permits⟩
  | call gives given =>
      obtain ⟨keeps, holds⟩ := gives_keeps lenient sound (sees _ List.mem_cons_self) gives
      have inside := sees_later keeps.2 (sees _ List.mem_cons_self)
      obtain ⟨keeps', values⟩ := evaluatesAll_keeps lenient keeps.1 inside given
      have kept := keeps_trans keeps keeps'
      exact ⟨kept.1, seesAll_later kept.2 sees, holds_later keeps'.2 holds, values⟩
  | following executed =>
      obtain ⟨keeps, next⟩ := executes_keeps lenient sound (sees _ List.mem_cons_self) executed
      have others := seesAll_later keeps.2 (seesAll_tail sees)
      exact ⟨keeps.1, seesAll_cons next others, True.intro⟩
  | loop counts =>
      obtain ⟨begun, inside⟩ := begun_keeps sound (sees _ List.mem_cons_self) _
      have keeps := keeps_trans begun (counts_keeps lenient begun.1 inside counts)
      have others := seesAll_later keeps.2 sees
      exact ⟨keeps.1, seesAll_cons (others _ List.mem_cons_self) others, True.intro⟩
  | round inside =>
      obtain ⟨keeps, bound⟩ := counter_keeps sound (sees _ List.mem_cons_self) _ _
      have others := seesAll_later keeps.2 (seesAll_tail sees)
      exact ⟨keeps.1, seesAll_cons bound others, True.intro⟩
  | nextRound inside executed =>
      obtain ⟨keeps, bound⟩ := counter_keeps sound (sees _ List.mem_cons_self) _ _
      obtain ⟨keeps', next⟩ := runs_keeps lenient keeps.1 bound executed
      have kept := keeps_trans keeps keeps'
      have others := seesAll_later kept.2 (seesAll_tail sees)
      exact ⟨kept.1, seesAll_cons next others, True.intro⟩
  | activation found enters =>
      obtain ⟨sound, known, inside⟩ := enter_keeps sound permits.1 permits.2 found enters
      refine ⟨sound, seesAll_cons inside ?_, True.intro⟩
      intro scope member binding bound
      exact known _ (sees scope member binding bound)
  | once found =>
      have function := permits.2 _ List.mem_cons_self
      have value := permits.2 _ (List.mem_cons_of_mem _ List.mem_cons_self)
      exact ⟨sound, sees, function, holdsAll_one value⟩
  | twice found applied =>
      have function := permits.2 _ List.mem_cons_self
      have value := permits.2 _ (List.mem_cons_of_mem _ List.mem_cons_self)
      obtain ⟨keeps, result⟩ := applies_keeps sound function (holdsAll_one value) applied
      exact ⟨keeps.1, seesAll_later keeps.2 sees, holds_later keeps.2 function,
        holdsAll_one result⟩
  | attempt found =>
      have function := permits.2 _ List.mem_cons_self
      have others := fun value member => permits.2 value (List.mem_cons_of_mem _ member)
      exact ⟨sound, sees, function, others⟩

/-- Every activity inside of a run starts as ready as the run itself. -/
theorem visits_ready (lenient : discipline.lenient) {first last : Activity}
    (ready : discipline.Ready first) (visits : Visits first last) : discipline.Ready last := by
  induction visits with
  | refl => exact ready
  | step _ enters ih => exact enters_ready lenient ih enters

/-- The end of an activity keeps the discipline, too. -/
theorem ends_ready (lenient : discipline.lenient) {activity : Activity}
    (ready : discipline.Ready activity) (ends : activity.machine? = some after) :
    discipline.Keeps activity.machine after := by
  obtain ⟨fuel, machine, scopes, task⟩ := activity
  have sound : discipline.Sound machine := ready.sound
  have sees : discipline.SeesAll machine scopes := ready.sees
  have permits : discipline.Permits machine task := ready.permits
  have calls : discipline.Calls (apply fuel) := apply_calls fuel
  cases scopes with
  | nil =>
      cases task with
      | apply => exact ends_keeps (calls _ _ _ sound permits.1 permits.2) ends
      | _ => cases ends
  | cons scope outer =>
      have inside := sees scope List.mem_cons_self
      cases task with
      | evaluate => exact ends_keeps (evaluate_ends calls sound inside (.inl lenient)) ends
      | evaluateAll => exact ends_keeps (evaluateAll_ends calls sound inside (.inl lenient)) ends
      | fill => exact ends_keeps (fillTable_ends calls sound inside permits (.inl lenient)) ends
      | execute => exact ends_keeps (execute_ends calls sound inside (.inl lenient)) ends
      | executeBlock =>
          exact ends_keeps (executeBlock_ends calls sound inside (.inl lenient)) ends
      | executeBranches otherwise branches =>
          refine ends_keeps (executeBranches_ends calls sound inside (.inl lenient) ?_) ends
          intro last sound sees
          cases otherwise with
          | none => exact ends_pure sound sees
          | some body => exact executeBlock_ends calls sound sees (.inl lenient)
      | rounds body name limit step bound counter =>
          refine ends_keeps (rounds_ends name limit step ?_ bound counter sound inside) ends
          intro last scope sound sees
          exact executeBlock_ends calls sound sees (.inl lenient)
      | apply => exact ends_keeps (calls _ _ _ sound permits.1 permits.2) ends

end Discipline

end LuaCore
