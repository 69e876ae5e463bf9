import LuaCore.Proofs.Heap
import LuaCore.Proofs.Proper

/-!
Disciplines: what programs are held to while they run. A discipline names the objects that a
program may know, which are closed under what they refer to, and what else holds of the machine. The
changes of the store that a program can make of what it knows keep all of that, and so does every
computation made of them.
-/

namespace LuaCore

/-- The place demands another value. -/
def Misuse.Rejects : Misuse → Value → Prop
  | index, _ => True
  | call, value => ∀ id, value ≠ .function id
  | _, value => ∀ x, value ≠ .number x

/-- The native has a value for all arguments. -/
def Native.Steady : Native → Prop
  | print | type | tostring | record | idle => True
  | _ => False

/-- What entries of tables are stored under. -/
inductive Key.Stored : Key → Prop where
  | value {value : Value} {key : Key} (stands : value.toKey? = some key) : Stored key
  | position (n : Nat) : Stored (.position n)

theorem rejects_number {place : Misuse} {value : Value} (other : place ≠ .call)
    (number : ∀ x, value ≠ .number x) : place.Rejects value := by
  cases place with
  | index => exact True.intro
  | call => exact absurd rfl other
  | arithmetic | loopStart | loopLimit | loopStep => exact number

theorem name_stored (text : String) : (Key.name text).Stored :=
  .value (rfl : (Value.string text).toKey? = some (.name text))

-- One account of the evaluator serves several properties, which differ in what is known, demanded
-- and remembered of the machine. The laws say that the changes of the store respect them.
structure Discipline where
  /-- The objects that programs may know. Nobody knows an object for what it refers to. -/
  knows : Machine → Object → Prop
  /-- What else holds of the machine. -/
  demands : Machine → Prop
  /-- What comes of the machine. -/
  moves : Machine → Machine → Prop
  /-- Whether programs may be improper and natives may give up. -/
  lenient : Prop
  moves_refl (machine : Machine) : moves machine machine
  moves_trans {machine next last : Machine} :
    moves machine next → moves next last → moves machine last
  knows_alike {machine next : Machine} {object : Object} :
    machine.Alike next → knows machine object → knows next object
  knows_newCell {machine : Machine} (value : Value) (object : Object) : demands machine →
    (knows (machine.newCell value) object ↔
      knows machine object ∨ object = .cell machine.cells.size)
  knows_newGlobal {machine : Machine} {name : String} {value : Value} {object : Object} :
    demands machine → knows machine object → knows (machine.newGlobal name value) object
  newGlobal_knows {machine : Machine} {name : String} {value : Value} {object : Object} :
    demands machine → knows (machine.newGlobal name value) object →
      knows machine object ∨ object = .cell machine.cells.size
  knows_newTable {machine : Machine} (object : Object) : demands machine →
    (knows machine.newTable.2 object ↔
      knows machine object ∨ object = .table machine.tables.size)
  knows_newFunction {machine : Machine} (callable : Callable) (object : Object) :
    demands machine → (knows (machine.newFunction callable).2 object ↔
      knows machine object ∨ object = .function machine.functions.size)
  quiet {machine next : Machine} :
    machine.Quiet next → demands machine → demands next ∧ moves machine next
  depth {machine : Machine} (depth : Nat) : demands machine → demands (machine.atDepth depth)
  activation {machine next : Machine} : moves (machine.atDepth (machine.depth + 1)) next →
    moves machine (next.atDepth (next.depth - 1))
  writeCell {machine : Machine} {cell : Nat} (value : Value) : demands machine →
    (knows machine (.cell cell) ∨ ∃ name, (name, cell) ∈ machine.globals.bindings) →
    demands (machine.writeCell cell value) ∧ moves machine (machine.writeCell cell value)
  newCell {machine : Machine} (value : Value) : demands machine →
    demands (machine.newCell value) ∧ moves machine (machine.newCell value)
  newGlobal {machine : Machine} (name : String) (value : Value) : demands machine →
    demands (machine.newGlobal name value) ∧ moves machine (machine.newGlobal name value)
  newTable {machine : Machine} : demands machine →
    demands machine.newTable.2 ∧ moves machine machine.newTable.2
  newFunction {machine : Machine} (callable : Callable) : demands machine →
    demands (machine.newFunction callable).2 ∧ moves machine (machine.newFunction callable).2
  setTable {machine : Machine} {id : Nat} {key : Key} (value : Value) : demands machine →
    knows machine (.table id) → key.Stored →
    demands (machine.setTable id key value) ∧ moves machine (machine.setTable id key value)

namespace Discipline

variable {discipline : Discipline}

/-- The program may have the value. -/
def Holds (discipline : Discipline) (machine : Machine) (value : Value) : Prop :=
  ∀ object, value.object? = some object → discipline.knows machine object

/-- The program may run in the scope. -/
def Sees (discipline : Discipline) (machine : Machine) (scope : Scope) : Prop :=
  ∀ binding ∈ scope.bindings, discipline.knows machine (.cell binding.2)

/-- The function may be called. -/
def Runs (discipline : Discipline) : Callable → Prop
  | .closure closure => discipline.lenient ∨ Statement.AllProper closure.body
  | .native _ native => discipline.lenient ∨ native.Steady

/-- The program may end so. -/
def Fails (discipline : Discipline) (machine : Machine) : Failure → Prop
  | .misuse place value _ => place.Rejects value ∧ discipline.Holds machine value
  | _ => discipline.lenient

/-- The machine keeps the discipline. -/
structure Sound (discipline : Discipline) (machine : Machine) : Prop where
  demands : discipline.demands machine
  closed : ∀ object target, discipline.knows machine object → machine.Refers object target →
    discipline.knows machine target
  globals : ∀ name cell value, (name, cell) ∈ machine.globals.bindings →
    machine.cells[cell]? = some value → discipline.Holds machine value
  runs : ∀ id, discipline.knows machine (.function id) → discipline.Runs (machine.callable id)

/-- The machine goes on in discipline: what is known stays known. -/
structure Later (discipline : Discipline) (machine next : Machine) : Prop where
  moves : discipline.moves machine next
  known : ∀ object, discipline.knows machine object → discipline.knows next object

/-- A change of a machine that keeps the discipline. -/
def Keeps (discipline : Discipline) (machine next : Machine) : Prop :=
  discipline.Sound next ∧ discipline.Later machine next

theorem later_refl (machine : Machine) : discipline.Later machine machine :=
  ⟨discipline.moves_refl machine, fun _ known => known⟩

theorem later_trans {machine next last : Machine} (first : discipline.Later machine next)
    (second : discipline.Later next last) : discipline.Later machine last := by
  refine ⟨discipline.moves_trans first.moves second.moves, ?_⟩
  intro object known
  exact second.known object (first.known object known)

theorem holds_later {machine next : Machine} {value : Value}
    (later : discipline.Later machine next) (holds : discipline.Holds machine value) :
    discipline.Holds next value := by
  intro object refers
  exact later.known object (holds object refers)

theorem sees_later {machine next : Machine} {scope : Scope}
    (later : discipline.Later machine next) (sees : discipline.Sees machine scope) :
    discipline.Sees next scope := by
  intro binding member
  exact later.known _ (sees binding member)

theorem holds_plain {machine : Machine} {value : Value} (plain : value.object? = none) :
    discipline.Holds machine value := by
  intro object refers
  rw [plain] at refers
  cases refers

theorem holds_table {machine : Machine} {id : Nat} :
    discipline.Holds machine (.table id) ↔ discipline.knows machine (.table id) := by
  constructor
  · intro holds
    exact holds _ rfl
  · intro known object refers
    cases refers
    exact known

theorem holds_function {machine : Machine} {id : Nat} :
    discipline.Holds machine (.function id) ↔ discipline.knows machine (.function id) := by
  constructor
  · intro holds
    exact holds _ rfl
  · intro known object refers
    cases refers
    exact known

theorem sees_empty {machine : Machine} : discipline.Sees machine {} := by
  intro binding member
  cases member

theorem fails_leaving {machine : Machine} {failure : Failure} (name : String)
    (fails : discipline.Fails machine failure) :
    discipline.Fails machine (failure.leaving name) := by
  cases failure with
  | misuse place value function =>
      cases function with
      | none => exact fails
      | some inner => exact fails
  | stray | native => exact fails

/-! Reading. -/

/-- A name has the value of its cell, if there is that cell, and is nil otherwise. -/
theorem holds_named {machine : Machine} {scope : Scope} {name : String} {value : Value}
    (found : scope.get? machine.cells name = some value)
    (holds : ∀ cell held, (name, cell) ∈ scope.bindings → machine.cells[cell]? = some held →
      discipline.Holds machine held) : discipline.Holds machine value := by
  obtain ⟨cell, bound, rfl⟩ := Option.map_eq_some_iff.mp found
  rw [Array.getD_eq_getD_getElem?]
  cases present : machine.cells[cell]? with
  | none => exact holds_plain rfl
  | some held => exact holds cell held (Scope.cell_mem bound) present

theorem holds_cell {machine : Machine} {scope : Scope} {name : String} {value : Value}
    (sound : discipline.Sound machine) (sees : discipline.Sees machine scope)
    (found : scope.get? machine.cells name = some value) : discipline.Holds machine value := by
  apply holds_named found
  intro cell held member present object refers
  exact sound.closed _ _ (sees _ member) (.cell present refers)

theorem holds_global {machine : Machine} {name : String} {value : Value}
    (sound : discipline.Sound machine)
    (found : machine.globals.get? machine.cells name = some value) :
    discipline.Holds machine value := by
  apply holds_named found
  intro cell held member present
  exact sound.globals name cell held member present

theorem holds_lookup {machine : Machine} {scope : Scope} (name : String)
    (sound : discipline.Sound machine) (sees : discipline.Sees machine scope) :
    discipline.Holds machine (machine.lookup scope name) := by
  unfold Machine.lookup
  cases localValue : scope.get? machine.cells name with
  | some value => exact holds_cell sound sees localValue
  | none =>
      cases globalValue : machine.globals.get? machine.cells name with
      | some value => exact holds_global sound globalValue
      | none => exact holds_plain rfl

theorem holds_entry {machine : Machine} {id : Nat} (key : Key) (sound : discipline.Sound machine)
    (known : discipline.knows machine (.table id)) :
    discipline.Holds machine ((machine.table id).get key) := by
  intro object refers
  unfold Table.get at refers
  cases found : (machine.table id).entries.lookup key with
  | none =>
      rw [found] at refers
      cases refers
  | some value =>
      rw [found] at refers
      obtain ⟨front, behind, same, _⟩ := List.lookup_eq_some_iff.mp found
      have member : (key, value) ∈ (machine.table id).entries := by
        rw [same]
        simp
      exact sound.closed _ _ known (.table member refers)

theorem sees_capture {machine : Machine} {id : Nat} {closure : Closure}
    (sound : discipline.Sound machine) (known : discipline.knows machine (.function id))
    (found : machine.callable id = .closure closure) :
    discipline.Sees machine closure.capture := by
  intro binding member
  exact sound.closed _ _ known (.function found member)

/-! Changes of the store. -/

/-- A change that adds no object, and writes at most one value that the program may have. -/
theorem sound_alike {machine next : Machine} {value : Value} (sound : discipline.Sound machine)
    (alike : machine.Alike next) (demands : discipline.demands next)
    (callables : next.functions = machine.functions) (holds : discipline.Holds machine value)
    (refers : ∀ {object target}, next.Refers object target →
      value.object? = some target ∨ machine.Refers object target)
    (found : ∀ {cell : Nat} {held : Value}, next.cells[cell]? = some held →
      held = value ∨ machine.cells[cell]? = some held) : discipline.Sound next := by
  have known {object : Object} : discipline.knows next object → discipline.knows machine object :=
    discipline.knows_alike (Machine.alike_symm alike)
  refine ⟨demands, ?_, ?_, ?_⟩
  · intro object target knows points
    apply discipline.knows_alike alike
    rcases refers points with written | old
    · exact holds _ written
    · exact sound.closed _ _ (known knows) old
  · intro name cell held member present object points
    apply discipline.knows_alike alike
    rw [← alike.globals] at member
    rcases found present with rfl | old
    · exact holds _ points
    · exact sound.globals _ _ _ member old object points
  · intro id knows
    have runs := sound.runs id (known knows)
    rw [Machine.callable, callables]
    exact runs

theorem sound_same {machine next : Machine} (sound : discipline.Sound machine)
    (same : machine.SameStore next) (demands : discipline.demands next) :
    discipline.Sound next := by
  apply sound_alike sound (Machine.same_alike same) demands same.functions.symm
    (holds_plain (rfl : Value.nil.object? = none))
  · intro object target refers
    exact .inr (Machine.refers_same same refers)
  · intro cell held found
    rw [← same.cells] at found
    exact .inr found

theorem keeps_quiet {machine next : Machine} (sound : discipline.Sound machine)
    (quiet : machine.Quiet next) : discipline.Keeps machine next := by
  have same := quiet.toSameStore
  obtain ⟨demands, moves⟩ := discipline.quiet quiet sound.demands
  refine ⟨sound_same sound same demands, moves, ?_⟩
  intro object known
  exact discipline.knows_alike (Machine.same_alike same) known

theorem keeps_depth {machine : Machine} (sound : discipline.Sound machine) (depth : Nat) :
    discipline.Sound (machine.atDepth depth) :=
  sound_same sound (machine.atDepth_same depth) (discipline.depth depth sound.demands)

theorem known_depth {machine : Machine} {object : Object} (depth : Nat)
    (known : discipline.knows machine object) : discipline.knows (machine.atDepth depth) object :=
  discipline.knows_alike (Machine.same_alike (machine.atDepth_same depth)) known

theorem holds_depth {machine : Machine} {value : Value} (depth : Nat)
    (holds : discipline.Holds machine value) : discipline.Holds (machine.atDepth depth) value := by
  intro object refers
  exact known_depth depth (holds object refers)

theorem fails_depth {machine : Machine} {failure : Failure} (depth : Nat)
    (fails : discipline.Fails machine failure) :
    discipline.Fails (machine.atDepth depth) failure := by
  cases failure with
  | misuse place value function => exact ⟨fails.1, holds_depth depth fails.2⟩
  | stray | native => exact fails

/-- An activation is left at the depth that it was entered from. -/
theorem keeps_activation {machine next : Machine}
    (keeps : discipline.Keeps (machine.atDepth (machine.depth + 1)) next) :
    discipline.Keeps machine (next.atDepth (next.depth - 1)) := by
  refine ⟨keeps_depth keeps.1 _, discipline.activation keeps.2.moves, ?_⟩
  intro object known
  exact known_depth _ (keeps.2.known _ (known_depth _ known))

theorem keeps_writeCell {machine : Machine} {cell : Nat} {value : Value}
    (sound : discipline.Sound machine)
    (known : discipline.knows machine (.cell cell) ∨
      ∃ name, (name, cell) ∈ machine.globals.bindings)
    (holds : discipline.Holds machine value) :
    discipline.Keeps machine (machine.writeCell cell value) := by
  have alike := Machine.writeCell_alike machine cell value
  obtain ⟨demands, moves⟩ := discipline.writeCell value sound.demands known
  refine ⟨?_, moves, fun _ => discipline.knows_alike alike⟩
  exact sound_alike sound alike demands rfl holds Machine.refers_writeCell Machine.writeCell_found

theorem keeps_setTable {machine : Machine} {id : Nat} {key : Key} {value : Value}
    (sound : discipline.Sound machine) (known : discipline.knows machine (.table id))
    (stored : key.Stored) (holds : discipline.Holds machine value) :
    discipline.Keeps machine (machine.setTable id key value) := by
  have alike := Machine.setTable_alike machine id key value
  obtain ⟨demands, moves⟩ := discipline.setTable value sound.demands known stored
  refine ⟨?_, moves, fun _ => discipline.knows_alike alike⟩
  exact sound_alike sound alike demands rfl holds Machine.refers_setTable .inr

/-- An object that is known after another one was added was known before or is that one, which did
not refer to anything. -/
theorem closed_grown {machine next : Machine} {added object target : Object}
    (sound : discipline.Sound machine)
    (after : ∀ object, discipline.knows machine object → discipline.knows next object)
    (missing : ¬ machine.Stores added)
    (grown : discipline.knows machine object ∨ object = added)
    (refers : machine.Refers object target) : discipline.knows next target := by
  rcases grown with known | rfl
  · exact after _ (sound.closed _ _ known refers)
  · exact absurd refers (Machine.missing_refers missing)

theorem keeps_newCell {machine : Machine} {value : Value} (sound : discipline.Sound machine)
    (holds : discipline.Holds machine value) :
    discipline.Keeps machine (machine.newCell value) := by
  have grown (object : Object) := discipline.knows_newCell value object sound.demands
  have after (object : Object) (known : discipline.knows machine object) :
      discipline.knows (machine.newCell value) object := (grown object).mpr (.inl known)
  obtain ⟨demands, moves⟩ := discipline.newCell value sound.demands
  refine ⟨⟨demands, ?_, ?_, ?_⟩, moves, after⟩
  · intro object target knows refers
    rcases Machine.refers_newCell refers with written | old
    · exact after _ (holds _ written)
    · exact closed_grown sound after (Nat.lt_irrefl _) ((grown object).mp knows) old
  · intro name cell held member found object refers
    apply after
    rcases Machine.newCell_found found with rfl | found
    · exact holds _ refers
    · exact sound.globals _ _ _ member found object refers
  · intro id knows
    rcases (grown _).mp knows with known | fresh
    · exact sound.runs id known
    · cases fresh

theorem keeps_newGlobal {machine : Machine} {value : Value} (name : String)
    (sound : discipline.Sound machine) (holds : discipline.Holds machine value) :
    discipline.Keeps machine (machine.newGlobal name value) := by
  have after (object : Object) (known : discipline.knows machine object) :
      discipline.knows (machine.newGlobal name value) object :=
    discipline.knows_newGlobal sound.demands known
  obtain ⟨demands, moves⟩ := discipline.newGlobal name value sound.demands
  refine ⟨⟨demands, ?_, ?_, ?_⟩, moves, after⟩
  · intro object target knows refers
    have grown := discipline.newGlobal_knows sound.demands knows
    rcases Machine.refers_newGlobal refers with written | old
    · exact after _ (holds _ written)
    · exact closed_grown sound after (Nat.lt_irrefl _) grown old
  · intro other cell held member found object refers
    apply after
    rcases Machine.newCell_found found with rfl | found
    · exact holds _ refers
    · rcases List.mem_append.mp member with member | last
      · exact sound.globals _ _ _ member found object refers
      · cases List.mem_singleton.mp last
        rw [Array.getElem?_size] at found
        cases found
  · intro id knows
    rcases discipline.newGlobal_knows sound.demands knows with known | fresh
    · exact sound.runs id known
    · cases fresh

theorem keeps_newTable {machine : Machine} (sound : discipline.Sound machine) :
    discipline.Keeps machine machine.newTable.2 := by
  have grown (object : Object) := discipline.knows_newTable object sound.demands
  have after (object : Object) (known : discipline.knows machine object) :
      discipline.knows machine.newTable.2 object := (grown object).mpr (.inl known)
  obtain ⟨demands, moves⟩ := discipline.newTable sound.demands
  refine ⟨⟨demands, ?_, ?_, ?_⟩, moves, after⟩
  · intro object target knows refers
    exact closed_grown sound after (Nat.lt_irrefl _) ((grown object).mp knows)
      (Machine.refers_newTable refers)
  · intro name cell held member found object refers
    exact after _ (sound.globals _ _ _ member found object refers)
  · intro id knows
    rcases (grown _).mp knows with known | fresh
    · exact sound.runs id known
    · cases fresh

/-- A new function may refer to what is known. -/
theorem keeps_newFunction {machine : Machine} {callable : Callable}
    (sound : discipline.Sound machine) (runs : discipline.Runs callable)
    (sees : ∀ closure, callable = .closure closure → discipline.Sees machine closure.capture) :
    discipline.Keeps machine (machine.newFunction callable).2 := by
  have grown (object : Object) := discipline.knows_newFunction callable object sound.demands
  have after (object : Object) (known : discipline.knows machine object) :
      discipline.knows (machine.newFunction callable).2 object := (grown object).mpr (.inl known)
  obtain ⟨demands, moves⟩ := discipline.newFunction callable sound.demands
  refine ⟨⟨demands, ?_, ?_, ?_⟩, moves, after⟩
  · intro object target knows refers
    rcases Machine.refers_newFunction refers with ⟨closure, binding, same, member, rfl⟩ | old
    · exact after _ (sees closure same binding member)
    · exact closed_grown sound after (Nat.lt_irrefl _) ((grown object).mp knows) old
  · intro name cell held member found object refers
    exact after _ (sound.globals _ _ _ member found object refers)
  · intro id knows
    rw [Machine.callable_newFunction]
    by_cases fresh : id = machine.functions.size
    · rw [if_pos fresh]
      exact runs
    · rw [if_neg fresh]
      rcases (grown _).mp knows with known | same
      · exact sound.runs id known
      · exact absurd (Object.function.inj same) fresh

/-- Putting a name in a scope keeps the discipline, and so does the scope. -/
theorem keeps_put {machine : Machine} {scope : Scope} {value : Value} (name : String)
    (sound : discipline.Sound machine) (sees : discipline.Sees machine scope)
    (holds : discipline.Holds machine value) :
    let next := scope.put machine.cells name value
    discipline.Keeps machine { machine with cells := next.2 } ∧
      discipline.Sees { machine with cells := next.2 } next.1 := by
  rcases scope.put_cases machine.cells name value with ⟨cell, member, same⟩ | ⟨_, same⟩
  · rw [same]
    have keeps := keeps_writeCell sound (.inl (sees _ member)) holds
    exact ⟨keeps, sees_later keeps.2 sees⟩
  -- The new binding stands behind the old ones, and binds the only cell that was not known before.
  · rw [same]
    have keeps := keeps_newCell sound holds
    refine ⟨keeps, ?_⟩
    intro binding member
    rcases List.mem_append.mp member with member | last
    · exact keeps.2.known _ (sees binding member)
    · cases List.mem_singleton.mp last
      exact (discipline.knows_newCell value _ sound.demands).mpr (.inr rfl)

theorem keeps_putAll {scope : Scope} {bindings : List (String × Value)} {machine : Machine}
    (sound : discipline.Sound machine) (sees : discipline.Sees machine scope)
    (holds : ∀ binding ∈ bindings, discipline.Holds machine binding.2) :
    let next := scope.putAll machine.cells bindings
    discipline.Keeps machine { machine with cells := next.2 } ∧
      discipline.Sees { machine with cells := next.2 } next.1 := by
  induction bindings generalizing scope machine with
  | nil => exact ⟨⟨sound, later_refl machine⟩, sees⟩
  | cons binding rest ih =>
      obtain ⟨name, value⟩ := binding
      obtain ⟨keeps, inner⟩ := keeps_put name sound sees (holds _ List.mem_cons_self)
      have others (binding : String × Value) (member : binding ∈ rest) :=
        holds_later keeps.2 (holds binding (List.mem_cons_of_mem _ member))
      obtain ⟨further, last⟩ := ih keeps.1 inner others
      exact ⟨⟨further.1, later_trans keeps.2 further.2⟩, last⟩

theorem keeps_putGlobal {machine : Machine} {value : Value} (name : String)
    (sound : discipline.Sound machine) (holds : discipline.Holds machine value) :
    discipline.Keeps machine (machine.putGlobal name value) := by
  rcases machine.putGlobal_cases name value with ⟨cell, member, same⟩ | ⟨_, same⟩
  · rw [same]
    exact keeps_writeCell sound (.inr ⟨name, member⟩) holds
  · rw [same]
    exact keeps_newGlobal name sound holds

/-! Computations. -/

/-- A computation that started on the machine ends in discipline, and with such a result. -/
def Ends {α : Type} (discipline : Discipline) (machine : Machine) (result : Machine → α → Prop) :
    Outcome α → Prop
  | .done value next => discipline.Keeps machine next ∧ result next value
  | .failed failure next => discipline.Keeps machine next ∧ discipline.Fails next failure
  | .exhausted => True

def HoldsAll (discipline : Discipline) (machine : Machine) (values : List Value) : Prop :=
  ∀ value ∈ values, discipline.Holds machine value

/-- The program may go on so. -/
def Leads (discipline : Discipline) (machine : Machine) : Flow → Prop
  | .next scope => discipline.Sees machine scope
  | .result value => discipline.Holds machine value

/-- Calls keep the discipline. -/
def Calls (discipline : Discipline) (call : Caller) : Prop :=
  ∀ machine function arguments, discipline.Sound machine → discipline.Holds machine function →
    discipline.HoldsAll machine arguments →
    discipline.Ends machine discipline.Holds (call function arguments machine)

theorem keeps_refl {machine : Machine} (sound : discipline.Sound machine) :
    discipline.Keeps machine machine :=
  ⟨sound, later_refl machine⟩

theorem keeps_trans {machine next last : Machine} (first : discipline.Keeps machine next)
    (second : discipline.Keeps next last) : discipline.Keeps machine last :=
  ⟨second.1, later_trans first.2 second.2⟩

section

variable {α β : Type} {machine : Machine}
variable {middle : Machine → α → Prop} {result : Machine → β → Prop}

theorem ends_pure {value : β} (sound : discipline.Sound machine) (fits : result machine value) :
    discipline.Ends machine result (Eval.pure value machine) :=
  ⟨keeps_refl sound, fits⟩

theorem ends_trans {next : Machine} {outcome : Outcome β} (keeps : discipline.Keeps machine next)
    (ends : discipline.Ends next result outcome) : discipline.Ends machine result outcome := by
  cases outcome with
  | done | failed => exact ⟨keeps_trans keeps ends.1, ends.2⟩
  | exhausted => exact True.intro

theorem ends_bind {first : Eval α} {next : α → Eval β}
    (starts : discipline.Ends machine middle (first machine))
    (goes : ∀ value after, discipline.Keeps machine after → middle after value →
      discipline.Ends after result (next value after)) :
    discipline.Ends machine result (Eval.bind first next machine) := by
  unfold Eval.bind
  cases ended : first machine with
  | done value after =>
      rw [ended] at starts
      exact ends_trans starts.1 (goes value after starts.1 starts.2)
  | failed failure after =>
      rw [ended] at starts
      exact starts
  | exhausted => exact True.intro

theorem ends_fail {failure : Failure} (sound : discipline.Sound machine)
    (fails : discipline.Fails machine failure) :
    discipline.Ends machine result (Eval.fail failure machine) :=
  ⟨keeps_refl sound, fails⟩

theorem ends_misuse {place : Misuse} {value : Value} (sound : discipline.Sound machine)
    (rejects : place.Rejects value) (holds : discipline.Holds machine value) :
    discipline.Ends machine result (Eval.misuse place value machine) :=
  ends_fail sound ⟨rejects, holds⟩

theorem ends_read {view : Machine → α} {next : α → Eval β}
    (ends : discipline.Ends machine result (next (view machine) machine)) :
    discipline.Ends machine result (Eval.bind (Eval.read view) next machine) :=
  ends

/-- A change that yields no value. -/
theorem ends_modify {change : Machine → Machine}
    (keeps : discipline.Keeps machine (change machine)) :
    discipline.Ends machine (fun _ _ => True) (Eval.modify change machine) :=
  ⟨keeps, True.intro⟩

end

end Discipline

end LuaCore
