import LuaCore.Proofs.Course

/-!
Separation: no cell is bound both in the global scope and in another one, whether that one is in
use or captured by a function. So what is put to a scope leaves the globals alone, and what is put
to a global leaves the scopes alone.
-/

namespace LuaCore

open Evaluation

namespace Scope

/-- The scope binds the cell, under some name. -/
def Binds (scope : Scope) (cell : Nat) : Prop :=
  ∃ name, (name, cell) ∈ scope.bindings

/-- The cell that a name has when it is put to the scope. -/
def target (scope : Scope) (cells : Cells) (name : String) : Nat :=
  (scope.cell? name).getD cells.size

variable {scope other : Scope} {cells : Cells} {name : String} {value : Value} {cell : Nat}

/-- Putting a name changes no cell but its own. -/
theorem put_elsewhere (different : cell ≠ scope.target cells name) :
    (scope.put cells name value).2[cell]? = cells[cell]? := by
  unfold target at different
  unfold put
  cases found : scope.cell? name with
  | some own =>
      rw [found] at different
      exact Array.getElem?_setIfInBounds_ne (Ne.symm different)
  | none =>
      rw [found] at different
      have old : cell ≠ cells.size := different
      rw [Array.getElem?_push, if_neg old]

/-- What is put to a scope leaves the values of one that does not bind the cell. -/
theorem get_elsewhere (apart : ¬ other.Binds (scope.target cells name)) (asked : String) :
    other.get? (scope.put cells name value).2 asked = other.get? cells asked := by
  unfold get?
  cases found : other.cell? asked with
  | none => rfl
  | some own =>
      have different : own ≠ scope.target cells name := by
        rintro rfl
        exact apart ⟨asked, cell_mem found⟩
      simp only [Option.map_some, Array.getD_eq_getD_getElem?, put_elsewhere different]

end Scope

namespace Machine

/-- The cell of a global name, or of none. -/
def BindsGlobally (machine : Machine) (cell : Nat) : Prop :=
  ∃ name, (name, cell) ∈ machine.globals.bindings

/-- The scope binds no cell that the global scope binds. -/
def Apart (machine : Machine) (scope : Scope) : Prop :=
  ∀ binding ∈ scope.bindings, ¬ machine.BindsGlobally binding.2

/-- The scope is captured by a script function. -/
def Captures (machine : Machine) (scope : Scope) : Prop :=
  ∃ id closure, machine.callable id = .closure closure ∧ closure.capture = scope

/-- The value of a global name. -/
def global? (machine : Machine) (name : String) : Option Value :=
  machine.globals.get? machine.cells name

/-- Neither the scopes in use nor the captured ones share a cell with the global scope. -/
structure Separate (machine : Machine) (scopes : List Scope) : Prop where
  used : ∀ scope ∈ scopes, machine.Apart scope
  captured : ∀ scope, machine.Captures scope → machine.Apart scope

/-- Binding a name in a scope in use, or the parameters of a function, changes no global. Assigning
to a global changes no name of a scope in use or of a captured one. -/
structure Insulated (machine : Machine) (scopes : List Scope) : Prop where
  bound : ∀ scope ∈ scopes, ∀ name value next after,
    bindName scope name value machine = .done next after →
      ∀ other, after.global? other = machine.global? other
  entered : ∀ id closure, machine.callable id = .closure closure → ∀ arguments scope after,
    enter closure arguments machine = .done scope after →
      ∀ other, after.global? other = machine.global? other
  assigned : ∀ scope, scope ∈ scopes ∨ machine.Captures scope → ∀ name value other,
    scope.get? (machine.putGlobal name value).cells other = scope.get? machine.cells other

end Machine

/-- Programs know everything but the cells of the globals, all of which are there. -/
def Discipline.apart : Discipline where
  knows machine
    | .cell id => machine.Stores (.cell id) ∧ ¬ machine.BindsGlobally id
    | _ => True
  demands machine := ∀ cell, machine.BindsGlobally cell → machine.Stores (.cell cell)
  moves _ _ := True
  lenient := True
  moves_refl _ := True.intro
  moves_trans _ _ := True.intro
  knows_alike := by
    intro machine next object alike known
    cases object with
    | cell id =>
        refine ⟨Machine.stores_alike alike _ known.1, ?_⟩
        rintro ⟨name, member⟩
        exact known.2 ⟨name, alike.globals ▸ member⟩
    | table | function => exact True.intro
  knows_newCell := by
    intro machine value object demands
    cases object with
    | cell id =>
        constructor
        · rintro ⟨stores, free⟩
          exact ((Machine.stores_newCell machine value _).mp stores).imp_left fun old => ⟨old, free⟩
        · rintro (⟨stores, free⟩ | fresh)
          · exact ⟨(Machine.stores_newCell machine value _).mpr (.inl stores), free⟩
          · refine ⟨(Machine.stores_newCell machine value _).mpr (.inr fresh), ?_⟩
            cases fresh
            intro bound
            exact Nat.lt_irrefl _ (demands _ bound)
    | table | function => exact ⟨.inl, fun _ => True.intro⟩
  knows_newGlobal := by
    intro machine name value object demands known
    cases object with
    | cell id =>
        refine ⟨(Machine.stores_newCell machine value _).mpr (.inl known.1), ?_⟩
        rintro ⟨other, member⟩
        rcases List.mem_append.mp member with member | last
        · exact known.2 ⟨other, member⟩
        · cases List.mem_singleton.mp last
          exact Nat.lt_irrefl _ known.1
    | table | function => exact True.intro
  newGlobal_knows := by
    intro machine name value object demands known
    cases object with
    | cell id =>
        have stores : (machine.newCell value).Stores (.cell id) := known.1
        refine ((Machine.stores_newCell machine value _).mp stores).imp_left fun old => ⟨old, ?_⟩
        rintro ⟨other, member⟩
        exact known.2 ⟨other, List.mem_append_left _ member⟩
    | table | function => exact .inl True.intro
  knows_newTable := by
    intro machine object demands
    cases object with
    | cell id => exact ⟨.inl, fun either => either.resolve_right nofun⟩
    | table | function => exact ⟨.inl, fun _ => True.intro⟩
  knows_newFunction := by
    intro machine callable object demands
    cases object with
    | cell id => exact ⟨.inl, fun either => either.resolve_right nofun⟩
    | table | function => exact ⟨.inl, fun _ => True.intro⟩
  quiet := by
    intro machine next quiet demands
    refine ⟨?_, True.intro⟩
    rintro cell ⟨name, member⟩
    exact Machine.stores_alike (Machine.same_alike quiet.toSameStore) (.cell cell)
      (demands cell ⟨name, quiet.globals ▸ member⟩)
  depth _ demands := demands
  activation _ := True.intro
  writeCell := by
    intro machine cell value demands _
    refine ⟨?_, True.intro⟩
    intro other bound
    exact Machine.stores_alike (Machine.writeCell_alike machine cell value) (.cell other)
      (demands other bound)
  newCell := by
    intro machine value demands
    refine ⟨?_, True.intro⟩
    intro other bound
    exact (Machine.stores_newCell machine value _).mpr (.inl (demands other bound))
  newGlobal := by
    intro machine name value demands
    refine ⟨?_, True.intro⟩
    rintro cell ⟨other, member⟩
    rcases List.mem_append.mp member with member | last
    · exact (Machine.stores_newCell machine value _).mpr (.inl (demands cell ⟨other, member⟩))
    · cases List.mem_singleton.mp last
      exact (Machine.stores_newCell machine value _).mpr (.inr rfl)
  newTable demands := ⟨demands, True.intro⟩
  newFunction _ demands := ⟨demands, True.intro⟩
  setTable _ demands _ _ := ⟨demands, True.intro⟩

section

variable {machine : Machine} {scope : Scope}

/-- Nothing but cells is withheld from programs. -/
theorem holds_apart (value : Value) : Discipline.apart.Holds machine value := by
  intro object refers
  cases value with
  | table | function =>
      cases refers
      exact True.intro
  | _ => cases refers

theorem captured_sees (sound : Discipline.apart.Sound machine) (captures : machine.Captures scope) :
    Discipline.apart.Sees machine scope := by
  obtain ⟨id, closure, found, rfl⟩ := captures
  exact Discipline.sees_capture sound True.intro found

theorem sound_separate {scopes : List Scope} (sound : Discipline.apart.Sound machine)
    (sees : Discipline.apart.SeesAll machine scopes) : machine.Separate scopes := by
  refine ⟨?_, ?_⟩
  · intro scope used binding member
    exact (sees scope used binding member).2
  · intro scope captures binding member
    exact (captured_sees sound captures binding member).2

/-- What is put to a scope that shares no cell with another one leaves the values of that one. -/
theorem get_put {other : Scope} {cells : Cells} (name : String) (value : Value) (asked : String)
    (apart : ∀ binding ∈ scope.bindings, ∀ bound ∈ other.bindings, binding.2 ≠ bound.2)
    (present : ∀ bound ∈ other.bindings, bound.2 < cells.size) :
    other.get? (scope.put cells name value).2 asked = other.get? cells asked := by
  apply Scope.get_elsewhere
  rintro ⟨bound, member⟩
  unfold Scope.target at member
  cases found : scope.cell? name with
  | some own =>
      rw [found] at member
      exact apart _ (Scope.cell_mem found) _ member rfl
  | none =>
      rw [found] at member
      exact Nat.lt_irrefl _ (present _ member)

theorem bound_global (sound : Discipline.apart.Sound machine)
    (sees : Discipline.apart.Sees machine scope) (name : String) (value : Value) (other : String) :
    machine.globals.get? (scope.put machine.cells name value).2 other = machine.global? other := by
  apply get_put
  · intro binding member bound global same
    exact (sees binding member).2 ⟨bound.1, same ▸ global⟩
  · intro bound global
    exact sound.demands bound.2 ⟨bound.1, global⟩

theorem entered_global {bindings : List (String × Value)} (sound : Discipline.apart.Sound machine)
    (sees : Discipline.apart.Sees machine scope) (other : String) :
    machine.globals.get? (scope.putAll machine.cells bindings).2 other =
      machine.global? other := by
  induction bindings generalizing machine scope with
  | nil => rfl
  | cons binding rest ih =>
      obtain ⟨name, value⟩ := binding
      obtain ⟨keeps, inside⟩ := Discipline.keeps_put name sound sees (holds_apart value)
      rw [Scope.putAll]
      exact (ih keeps.1 inside).trans (bound_global sound sees name value other)

theorem assigned_local
    (sees : Discipline.apart.Sees machine scope) (name : String) (value : Value) (other : String) :
    scope.get? (machine.putGlobal name value).cells other = scope.get? machine.cells other := by
  apply @get_put machine.globals
  · intro global member binding bound same
    exact (sees binding bound).2 ⟨global.1, same ▸ member⟩
  · intro binding bound
    exact (sees binding bound).1

theorem sound_insulated {scopes : List Scope} (sound : Discipline.apart.Sound machine)
    (sees : Discipline.apart.SeesAll machine scopes) : machine.Insulated scopes := by
  refine ⟨?_, ?_, ?_⟩
  · intro scope used name value next after binds other
    cases binds
    exact bound_global sound (sees scope used) name value other
  · intro id closure found arguments scope after enters other
    cases enters
    exact entered_global sound (captured_sees sound ⟨id, closure, found, rfl⟩) other
  · intro scope somewhere name value other
    rcases somewhere with used | captures
    · exact assigned_local (sees scope used) name value other
    · exact assigned_local (captured_sees sound captures) name value other

end

namespace Session

/-- The sessions that come of a new one: texts are executed, programs run, natives defined and
functions called, whatever these end with. -/
inductive Reached : Session → Prop where
  | bare (verbosity : Nat) : Reached (bare verbosity)
  | define {session : Session} (name : String) (native : Native) (before : Reached session) :
      Reached (session.define name native)
  | execute {session next : Session} {fuel : Nat} {source : String}
      {answer : Except RunError Value} (before : Reached session)
      (ran : session.execute fuel source = some (answer, next)) : Reached next
  | run {session next : Session} {fuel : Nat} {program : Block} {answer : Except Failure Value}
      (before : Reached session) (ran : session.run fuel program = some (answer, next)) :
      Reached next
  | apply {session next : Session} {fuel : Nat} {function : Value} {arguments : List Value}
      {answer : Except Failure Value} (before : Reached session)
      (ran : session.apply fuel function arguments = some (answer, next)) : Reached next

/-- What a session can be busy with: with a program, which may be that of a text, or with a call. -/
inductive Busy (session : Session) : Activity → Prop where
  | run (fuel : Nat) (program : Block) :
      Busy session ⟨fuel, session.machine, [{}], .executeBlock program⟩
  | apply (fuel : Nat) (function : Value) (arguments : List Value) :
      Busy session ⟨fuel, session.machine, [], .apply function arguments⟩

end Session

theorem reached_apart {session : Session} (reached : session.Reached) :
    Discipline.apart.Sound session.machine := by
  induction reached with
  | bare verbosity =>
      refine ⟨?_, ?_, ?_, ?_⟩
      · rintro cell ⟨name, member⟩
        cases member
      · intro object target _ refers
        cases refers with
        | cell found => cases found
        | table member => cases member
        | function found => cases found
      · intro name cell value member
        cases member
      · intro id _
        exact .inl True.intro
  | define name native _ ih => exact define_sound name native ih (.inl True.intro)
  | execute _ ran ih => exact execute_sound ih ran
  | run _ ran ih => exact (run_sound ih (.inl True.intro) ran).1.1
  | apply _ ran ih =>
      exact (apply_sound ih (holds_apart _) (fun value _ => holds_apart value) ran).1.1

theorem busy_ready {session : Session} {activity : Activity} (reached : session.Reached)
    (busy : session.Busy activity) : Discipline.apart.Ready activity := by
  have sound := reached_apart reached
  cases busy with
  | run fuel program =>
      refine ⟨sound, ?_, True.intro⟩
      intro scope member
      cases List.mem_singleton.mp member
      exact Discipline.sees_empty
  | apply fuel function arguments =>
      refine ⟨sound, ?_, holds_apart function, fun value _ => holds_apart value⟩
      rintro scope ⟨⟩

/-- At the start and at the end of everything that goes on in a session, no cell of a global is a
cell of a scope in use or of one that a function has captured. So what is bound in a scope, the
parameters of a function or the counter of a loop, changes no global, and what is assigned to a
global changes no name of such a scope. -/
theorem globals_separate {session : Session} (reached : session.Reached) :
    (session.machine.Separate [] ∧ session.machine.Insulated []) ∧
    ∀ first activity, session.Busy first → Visits first activity →
      (activity.machine.Separate activity.scopes ∧
        activity.machine.Insulated activity.scopes) ∧
      ∀ after, activity.machine? = some after →
        after.Separate activity.scopes ∧ after.Insulated activity.scopes := by
  have sound := reached_apart reached
  have none : Discipline.apart.SeesAll session.machine [] := by rintro scope ⟨⟩
  refine ⟨⟨sound_separate sound none, sound_insulated sound none⟩, ?_⟩
  intro first activity busy visits
  have ready := Discipline.visits_ready True.intro (busy_ready reached busy) visits
  refine ⟨⟨sound_separate ready.sound ready.sees, sound_insulated ready.sound ready.sees⟩, ?_⟩
  intro after ends
  have keeps := Discipline.ends_ready True.intro ready ends
  have sees := Discipline.seesAll_later keeps.2 ready.sees
  exact ⟨sound_separate keeps.1 sees, sound_insulated keeps.1 sees⟩

/-- A local name in front of a global one of the same spelling has a cell of its own. -/
theorem globals_separate_shadowed :
    let session := (Session.bare 0).define "x" .idle
    let program : Block := [.declare "x" .nil, .evaluate (.name "x")]
    ∃ activity after, Visits ⟨1, session.machine, [{}], .executeBlock program⟩ activity ∧
      activity.scopes = [⟨[("x", 1)]⟩] ∧ activity.machine.globals = ⟨[("x", 0)]⟩ ∧
      activity.machine? = some after ∧ activity.machine.Separate activity.scopes ∧
      after.Insulated activity.scopes := by
  intro session program
  have reached : session.Reached := .define "x" .idle (.bare 0)
  have visits : Visits ⟨1, session.machine, [{}], .executeBlock program⟩ _ :=
    .step .refl (.following rfl)
  obtain ⟨⟨separate, _⟩, ends⟩ :=
    (globals_separate reached).2 _ _ (.run 1 program) visits
  exact ⟨_, _, visits, rfl, rfl, rfl, separate, (ends _ rfl).2⟩

end LuaCore
