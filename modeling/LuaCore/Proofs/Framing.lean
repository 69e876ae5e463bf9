import LuaCore.Proofs.Keeping

/-!
Framing: what a call leaves alone. A call only knows what is reached from the globals, from the
function and from the arguments, and what is made while it runs, so that whatever else there was
before is afterwards as it was.
-/

namespace LuaCore

/-- The machine that a computation ends on, with a value or with a failure. -/
def Outcome.machine? {α : Type} : Outcome α → Option Machine
  | done _ machine | failed _ machine => some machine
  | exhausted => none

/-- What a call is given: the cells of the globals, the function and the arguments. -/
inductive Machine.Given (machine : Machine) (function : Value) (arguments : List Value) :
    Object → Prop where
  | global {name : String} {cell : Nat} (member : (name, cell) ∈ machine.globals.bindings) :
      Given machine function arguments (.cell cell)
  | function {object : Object} (refers : function.object? = some object) :
      Given machine function arguments object
  | argument {value : Value} {object : Object} (member : value ∈ arguments)
      (refers : value.object? = some object) : Given machine function arguments object

/-- The objects of a territory, and all that there was not at first. -/
def Within (initial : Machine) (territory : Object → Prop) (object : Object) : Prop :=
  territory object ∨ ¬ initial.Stores object

/-- The machine has the objects that there were at first, and those out of the territory are as
they were. -/
structure Framed (initial : Machine) (territory : Object → Prop) (machine : Machine) : Prop where
  stores : ∀ object, initial.Stores object → machine.Stores object
  globals : ∀ name cell, (name, cell) ∈ machine.globals.bindings →
    Within initial territory (.cell cell)
  cells : ∀ cell, ¬ Within initial territory (.cell cell) →
    machine.cells[cell]? = initial.cells[cell]?
  tables : ∀ id, ¬ Within initial territory (.table id) →
    machine.tables[id]? = initial.tables[id]?

section

variable {initial machine : Machine} {territory : Object → Prop}

/-- What a machine is about to add was not there at first. -/
theorem missing_within {object : Object} (framed : Framed initial territory machine)
    (missing : ¬ machine.Stores object) : Within initial territory object :=
  .inr fun stored => missing (framed.stores object stored)

theorem within_grown {object added : Object} (framed : Framed initial territory machine)
    (missing : ¬ machine.Stores added) :
    Within initial territory object ↔ Within initial territory object ∨ object = added := by
  constructor
  · exact .inl
  · rintro (within | rfl)
    · exact within
    · exact missing_within framed missing

theorem framed_same {next : Machine} (same : machine.SameStore next)
    (framed : Framed initial territory machine) : Framed initial territory next := by
  refine ⟨?_, ?_, ?_, ?_⟩
  · intro object stored
    exact Machine.stores_alike (Machine.same_alike same) object (framed.stores object stored)
  · exact same.globals ▸ framed.globals
  · exact same.cells ▸ framed.cells
  · exact same.tables ▸ framed.tables

theorem framed_writeCell {cell : Nat} (value : Value) (framed : Framed initial territory machine)
    (within : Within initial territory (.cell cell)) :
    Framed initial territory (machine.writeCell cell value) := by
  refine ⟨?_, framed.globals, ?_, framed.tables⟩
  · intro object stored
    exact Machine.stores_alike (Machine.writeCell_alike machine cell value) object
      (framed.stores object stored)
  · intro other outside
    have different : cell ≠ other := by
      rintro rfl
      exact outside within
    rw [← framed.cells other outside]
    exact Array.getElem?_setIfInBounds_ne different

theorem framed_setTable {id : Nat} (key : Key) (value : Value)
    (framed : Framed initial territory machine) (within : Within initial territory (.table id)) :
    Framed initial territory (machine.setTable id key value) := by
  refine ⟨?_, framed.globals, framed.cells, ?_⟩
  · intro object stored
    exact Machine.stores_alike (Machine.setTable_alike machine id key value) object
      (framed.stores object stored)
  · intro other outside
    have different : id ≠ other := by
      rintro rfl
      exact outside within
    rw [← framed.tables other outside]
    change (machine.tables.modify id _)[other]? = _
    rw [Array.getElem?_modify, if_neg different]

theorem push_outside {α : Type} {values : Array α} {value : α} {id : Nat} {old : Option α}
    (present : id < values.size) (same : values[id]? = old) : (values.push value)[id]? = old := by
  rw [Array.getElem?_push, if_neg (Nat.ne_of_lt present)]
  exact same

/-- What lies out of the territory is there all along. -/
theorem outside_stored {object : Object} (framed : Framed initial territory machine)
    (outside : ¬ Within initial territory object) : machine.Stores object :=
  Classical.not_not.mp fun missing => outside (missing_within framed missing)

theorem framed_newCell (value : Value) (framed : Framed initial territory machine) :
    Framed initial territory (machine.newCell value) := by
  refine ⟨?_, framed.globals, ?_, framed.tables⟩
  · intro object stored
    exact (Machine.stores_newCell machine value object).mpr (.inl (framed.stores object stored))
  · intro cell outside
    exact push_outside (outside_stored framed outside) (framed.cells cell outside)

theorem framed_newGlobal (name : String) (value : Value)
    (framed : Framed initial territory machine) :
    Framed initial territory (machine.newGlobal name value) := by
  have grown := framed_newCell value framed
  refine ⟨?_, ?_, grown.cells, grown.tables⟩
  · intro object stored
    exact Machine.stores_alike ⟨rfl, rfl, rfl, rfl⟩ object (grown.stores object stored)
  · intro other cell member
    rcases List.mem_append.mp member with member | last
    · exact framed.globals other cell member
    · cases List.mem_singleton.mp last
      exact missing_within framed (Nat.lt_irrefl _)

theorem framed_newTable (framed : Framed initial territory machine) :
    Framed initial territory machine.newTable.2 := by
  refine ⟨?_, framed.globals, framed.cells, ?_⟩
  · intro object stored
    exact (Machine.stores_newTable machine object).mpr (.inl (framed.stores object stored))
  · intro id outside
    exact push_outside (outside_stored framed outside) (framed.tables id outside)

theorem framed_newFunction (callable : Callable) (framed : Framed initial territory machine) :
    Framed initial territory (machine.newFunction callable).2 := by
  refine ⟨?_, framed.globals, framed.cells, framed.tables⟩
  intro object stored
  exact (Machine.stores_newFunction machine callable object).mpr
    (.inl (framed.stores object stored))

end

-- The territory is fixed at the start and not followed through the run: what a program makes was
-- not there at first, and what it stores into the territory it knew already.
/-- Programs that start on a machine with a territory know that territory and what they make. -/
def Discipline.frame (initial : Machine) (territory : Object → Prop) : Discipline where
  knows _ := Within initial territory
  demands := Framed initial territory
  moves _ _ := True
  lenient := True
  moves_refl _ := True.intro
  moves_trans _ _ := True.intro
  knows_alike _ within := within
  knows_newCell _ _ framed := within_grown framed (Nat.lt_irrefl _)
  knows_newGlobal _ within := within
  newGlobal_knows _ within := .inl within
  knows_newTable _ framed := within_grown framed (Nat.lt_irrefl _)
  knows_newFunction _ _ framed := within_grown framed (Nat.lt_irrefl _)
  quiet quiet framed := ⟨framed_same quiet.toSameStore framed, True.intro⟩
  depth depth framed := framed_same (Machine.atDepth_same _ depth) framed
  activation _ := True.intro
  writeCell value framed known := by
    refine ⟨framed_writeCell value framed ?_, True.intro⟩
    rcases known with within | ⟨name, member⟩
    · exact within
    · exact framed.globals name _ member
  newCell value framed := ⟨framed_newCell value framed, True.intro⟩
  newGlobal name value framed := ⟨framed_newGlobal name value framed, True.intro⟩
  newTable framed := ⟨framed_newTable framed, True.intro⟩
  newFunction callable framed := ⟨framed_newFunction callable framed, True.intro⟩
  setTable value framed within _ := ⟨framed_setTable _ value framed within, True.intro⟩

/-- The territory of a call is sound at its start. -/
theorem given_sound (machine : Machine) (function : Value) (arguments : List Value) :
    (Discipline.frame machine (machine.Reaches (machine.Given function arguments))).Sound
      machine := by
  refine ⟨⟨fun _ stored => stored, ?_, fun _ _ => rfl, fun _ _ => rfl⟩, ?_, ?_, ?_⟩
  · intro name cell member
    exact .inl (.root (.global member))
  -- Closed, because reaching is; and nothing that is missing refers to anything.
  · intro object target knows refers
    rcases knows with reached | missing
    · exact .inl (.step reached refers)
    · exact absurd refers (Machine.missing_refers missing)
  · intro name cell value member found object refers
    exact .inl (.step (.root (.global member)) (.cell found refers))
  · intro id _
    cases machine.callable id with
    | closure | native => exact .inl True.intro

theorem ends_keeps {discipline : Discipline} {machine next : Machine} {α : Type}
    {result : Machine → α → Prop} {outcome : Outcome α}
    (ends : discipline.Ends machine result outcome) (last : outcome.machine? = some next) :
    discipline.Keeps machine next := by
  cases outcome with
  | done | failed =>
      cases last
      exact ends.1
  | exhausted => cases last

theorem apply_framed {fuel : Nat} {machine next : Machine} {function : Value}
    {arguments : List Value}
    (ends : (Evaluation.apply fuel function arguments machine).machine? = some next) :
    Framed machine (machine.Reaches (machine.Given function arguments)) next := by
  have calls := Evaluation.apply_calls fuel _ function arguments
    (given_sound machine function arguments) (fun _ refers => .inl (.root (.function refers)))
    (fun _ member _ refers => .inl (.root (.argument member refers)))
  exact (ends_keeps calls ends).1.demands

/-- A call that ends, with a value or with a failure, leaves every cell and table as it was that
there was before and that is not reached from the globals, the function and the arguments. So does
every scope keep the values of its names whose cells are not reached. -/
theorem apply_frame {fuel : Nat} {machine next : Machine} {function : Value}
    {arguments : List Value}
    (ends : (Evaluation.apply fuel function arguments machine).machine? = some next) :
    (∀ cell, machine.Stores (.cell cell) →
      ¬ machine.Reaches (machine.Given function arguments) (.cell cell) →
      next.cells[cell]? = machine.cells[cell]?) ∧
    (∀ id, machine.Stores (.table id) →
      ¬ machine.Reaches (machine.Given function arguments) (.table id) →
      next.tables[id]? = machine.tables[id]?) ∧
    (∀ scope name cell, Scope.cell? scope name = some cell → machine.Stores (.cell cell) →
      ¬ machine.Reaches (machine.Given function arguments) (.cell cell) →
      scope.get? next.cells name = scope.get? machine.cells name) := by
  have framed := apply_framed ends
  have outside {object : Object} (stored : machine.Stores object)
      (unreached : ¬ machine.Reaches (machine.Given function arguments) object) :
      ¬ Within machine (machine.Reaches (machine.Given function arguments)) object := by
    rintro (reached | missing)
    · exact unreached reached
    · exact missing stored
  refine ⟨?_, ?_, ?_⟩
  · intro cell stored unreached
    exact framed.cells cell (outside stored unreached)
  · intro id stored unreached
    exact framed.tables id (outside stored unreached)
  · intro scope name cell bound stored unreached
    have same := framed.cells cell (outside stored unreached)
    rw [Scope.get?, Scope.get?, bound]
    simp only [Option.map_some, Array.getD_eq_getD_getElem?, same]

/-- A function that puts its parameter and a local of its own leaves a cell that it does not see. -/
theorem apply_frame_unseen :
    let closure : Closure := ⟨none, ["y"], [.declare "x" (.name "y")], {}⟩
    let machine : Machine := { cells := #[.boolean true], functions := #[.closure closure] }
    ∃ next, (Evaluation.apply 1 (.function 0) [.nil] machine).machine? = some next ∧
      next.cells.size = 3 ∧ next.cells[0]? = some (.boolean true) := by
  intro closure machine
  -- Nothing but the function itself is reached, whose captured scope is empty.
  have only {object : Object}
      (reached : machine.Reaches (machine.Given (.function 0) [.nil]) object) :
      object = .function 0 := by
    induction reached with
    | root isRoot =>
        cases isRoot with
        | global member => cases member
        | function refers =>
            cases refers
            rfl
        | argument member refers =>
            cases List.mem_singleton.mp member
            cases refers
    | step _ refers ih =>
        cases ih
        cases refers with
        | function found member =>
            cases found
            cases member
  have ends : (Evaluation.apply 1 (.function 0) [.nil] machine).machine? = some _ := rfl
  have kept := (apply_frame ends).1 0 (Nat.lt_succ_self 0) (fun reached => nomatch only reached)
  exact ⟨_, ends, rfl, kept⟩

end LuaCore
