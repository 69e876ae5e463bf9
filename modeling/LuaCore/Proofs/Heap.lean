import LuaCore.Evaluation

/-!
The store of a machine as a graph: what refers to what, and what each change of the store does to
it. A change writes to one object or adds one, and every other object refers to what it did before.
-/

namespace LuaCore

/-- What a machine stores. -/
inductive Object where
  | cell (id : Nat)
  | table (id : Nat)
  | function (id : Nat)
  deriving DecidableEq

/-- The object that a value refers to. -/
def Value.object? : Value → Option Object
  | table id => some (.table id)
  | function id => some (.function id)
  | _ => none

namespace Machine

/-- A cell refers to what its value refers to, a table to what its values refer to, and a script
function to the cells of its scope. -/
inductive Refers (machine : Machine) : Object → Object → Prop where
  | cell {id : Nat} {value : Value} {object : Object} (found : machine.cells[id]? = some value)
      (refers : value.object? = some object) : Refers machine (.cell id) object
  | table {id : Nat} {key : Key} {value : Value} {object : Object}
      (member : (key, value) ∈ (machine.table id).entries)
      (refers : value.object? = some object) : Refers machine (.table id) object
  | function {id : Nat} {closure : Closure} {name : String} {cell : Nat}
      (found : machine.callable id = .closure closure)
      (member : (name, cell) ∈ closure.capture.bindings) :
      Refers machine (.function id) (.cell cell)

/-- The object is there. -/
def Stores (machine : Machine) : Object → Prop
  | .cell id => id < machine.cells.size
  | .table id => id < machine.tables.size
  | .function id => id < machine.functions.size

/-- What is reached from some objects. -/
inductive Reaches (machine : Machine) (roots : Object → Prop) : Object → Prop where
  | root {object : Object} (isRoot : roots object) : Reaches machine roots object
  | step {object next : Object} (reached : Reaches machine roots object)
      (refers : machine.Refers object next) : Reaches machine roots next

def writeCell (machine : Machine) (cell : Nat) (value : Value) : Machine :=
  { machine with cells := machine.cells.setIfInBounds cell value }

def newCell (machine : Machine) (value : Value) : Machine :=
  { machine with cells := machine.cells.push value }

/-- Binds a global name to a new cell. -/
def newGlobal (machine : Machine) (name : String) (value : Value) : Machine :=
  { machine.newCell value with
    globals := ⟨machine.globals.bindings ++ [(name, machine.cells.size)]⟩ }

def atDepth (machine : Machine) (depth : Nat) : Machine :=
  { machine with depth := depth }

/-- The machines store the same. -/
structure SameStore (machine next : Machine) : Prop where
  globals : machine.globals = next.globals
  cells : machine.cells = next.cells
  tables : machine.tables = next.tables
  functions : machine.functions = next.functions

/-- A change that only counts statements or lets something out. -/
structure Quiet (machine next : Machine) : Prop extends SameStore machine next where
  verbosity : machine.verbosity = next.verbosity
  depth : machine.depth = next.depth
  steps : machine.steps ≤ next.steps

/-- The machines have the same objects, whatever these refer to. -/
structure Alike (machine next : Machine) : Prop where
  globals : machine.globals = next.globals
  cells : machine.cells.size = next.cells.size
  tables : machine.tables.size = next.tables.size
  functions : machine.functions.size = next.functions.size

theorem alike_symm {machine next : Machine} (alike : Alike machine next) : Alike next machine :=
  ⟨alike.globals.symm, alike.cells.symm, alike.tables.symm, alike.functions.symm⟩

theorem same_alike {machine next : Machine} (same : SameStore machine next) :
    Alike machine next :=
  ⟨same.globals, congrArg Array.size same.cells, congrArg Array.size same.tables,
    congrArg Array.size same.functions⟩

theorem writeCell_alike (machine : Machine) (cell : Nat) (value : Value) :
    Alike machine (machine.writeCell cell value) :=
  ⟨rfl, (Array.size_setIfInBounds ..).symm, rfl, rfl⟩

theorem setTable_alike (machine : Machine) (id : Nat) (key : Key) (value : Value) :
    Alike machine (machine.setTable id key value) :=
  ⟨rfl, rfl, Array.size_modify.symm, rfl⟩

theorem atDepth_same (machine : Machine) (depth : Nat) :
    SameStore machine (machine.atDepth depth) :=
  ⟨rfl, rfl, rfl, rfl⟩

theorem quiet_refl (machine : Machine) : Quiet machine machine :=
  ⟨⟨rfl, rfl, rfl, rfl⟩, rfl, rfl, Nat.le_refl _⟩

theorem quiet_trans {machine next last : Machine} (first : Quiet machine next)
    (second : Quiet next last) : Quiet machine last := by
  refine ⟨⟨?_, ?_, ?_, ?_⟩, ?_, ?_, ?_⟩
  · exact first.globals.trans second.globals
  · exact first.cells.trans second.cells
  · exact first.tables.trans second.tables
  · exact first.functions.trans second.functions
  · exact first.verbosity.trans second.verbosity
  · exact first.depth.trans second.depth
  · exact Nat.le_trans first.steps second.steps

theorem emit_quiet (machine : Machine) (event : Event) : Quiet machine (machine.emit event) :=
  ⟨⟨rfl, rfl, rfl, rfl⟩, rfl, rfl, Nat.le_refl _⟩

theorem begin_quiet (machine : Machine) (summary : String) :
    Quiet machine (machine.begin summary) := by
  have counted : Quiet machine { machine with steps := machine.steps + 1 } :=
    ⟨⟨rfl, rfl, rfl, rfl⟩, rfl, rfl, Nat.le_succ _⟩
  unfold begin
  by_cases verbose : 0 < machine.verbosity
  · rw [if_pos verbose]
    exact quiet_trans counted (emit_quiet _ _)
  · rw [if_neg verbose]
    exact counted

theorem address_quiet (machine : Machine) (value : Value) :
    Quiet machine (machine.address value).2 := by
  unfold address
  cases machine.addressed.idxOf? value with
  | some index => exact quiet_refl machine
  | none => exact ⟨⟨rfl, rfl, rfl, rfl⟩, rfl, rfl, Nat.le_refl _⟩

theorem plain_quiet (value : Value) (machine : Machine) :
    Quiet machine (Display.plain value machine).2 := by
  cases value with
  | table | function => exact address_quiet machine _
  | _ => exact quiet_refl machine

theorem plainAll_quiet (values : List Value) (machine : Machine) :
    Quiet machine (Display.plainAll values machine).2 := by
  induction values generalizing machine with
  | nil => exact quiet_refl machine
  | cons value rest ih => exact quiet_trans (plain_quiet value machine) (ih _)

theorem printedLine_quiet (arguments : List Value) (machine : Machine) :
    Quiet machine (Native.printedLine arguments machine) :=
  quiet_trans (plainAll_quiet arguments machine) (emit_quiet _ _)

theorem recordAll_quiet (arguments : List Value) (machine : Machine) :
    Quiet machine (Native.recordAll arguments machine) := by
  unfold Native.recordAll
  induction arguments generalizing machine with
  | nil => exact quiet_refl machine
  | cons value rest ih => exact quiet_trans (emit_quiet machine _) (ih _)

theorem refers_same {machine next : Machine} (same : SameStore machine next)
    {object target : Object} (refers : next.Refers object target) :
    machine.Refers object target := by
  cases refers with
  | cell found refers => exact .cell (same.cells ▸ found) refers
  | @table id _ _ _ member refers =>
      have alike : machine.table id = next.table id := by rw [table, table, same.tables]
      exact .table (alike ▸ member) refers
  | @function id _ _ _ found member =>
      have alike : machine.callable id = next.callable id := by
        rw [callable, callable, same.functions]
      exact .function (alike.trans found) member

/-! Writing to an object. -/

theorem writeCell_found {machine : Machine} {cell id : Nat} {value held : Value}
    (found : (machine.writeCell cell value).cells[id]? = some held) :
    held = value ∨ machine.cells[id]? = some held := by
  change (machine.cells.setIfInBounds cell value)[id]? = some held at found
  rw [Array.getElem?_setIfInBounds] at found
  by_cases same : cell = id
  · rw [if_pos same] at found
    by_cases within : cell < machine.cells.size
    · rw [if_pos within] at found
      cases found
      exact .inl rfl
    · rw [if_neg within] at found
      cases found
  · rw [if_neg same] at found
    exact .inr found

theorem refers_writeCell {machine : Machine} {cell : Nat} {value : Value} {object target : Object}
    (refers : (machine.writeCell cell value).Refers object target) :
    value.object? = some target ∨ machine.Refers object target := by
  cases refers with
  | cell found refers =>
      rcases writeCell_found found with rfl | found
      · exact .inl refers
      · exact .inr (.cell found refers)
  | table member refers => exact .inr (.table member refers)
  | function found member => exact .inr (.function found member)

theorem mem_put {key other : Key} {value held : Value} {entries : List (Key × Value)}
    (member : (other, held) ∈ Table.put key value entries) :
    held = value ∨ (other, held) ∈ entries := by
  induction entries with
  | nil =>
      rw [Table.put, List.mem_singleton] at member
      cases member
      exact .inl rfl
  | cons first rest ih =>
      obtain ⟨present, old⟩ := first
      rw [Table.put] at member
      by_cases same : present = key
      · rw [if_pos same] at member
        rcases List.mem_cons.mp member with here | behind
        · cases here
          exact .inl rfl
        · exact .inr (List.mem_cons_of_mem _ behind)
      · rw [if_neg same] at member
        rcases List.mem_cons.mp member with here | behind
        · exact .inr (here ▸ List.mem_cons_self)
        · exact (ih behind).imp_right (List.mem_cons_of_mem _)

theorem mem_set {table : Table} {key other : Key} {value held : Value}
    (member : (other, held) ∈ (table.set key value).entries) :
    held = value ∨ (other, held) ∈ table.entries := by
  cases value with
  | nil => exact .inr (List.mem_filter.mp member).1
  | _ => exact mem_put member

theorem table_setTable (machine : Machine) (id other : Nat) (key : Key) (value : Value) :
    (machine.setTable id key value).table other =
      if id = other ∧ id < machine.tables.size then (machine.table other).set key value
      else machine.table other := by
  unfold setTable table
  by_cases same : id = other
  · subst same
    by_cases within : id < machine.tables.size
    · simp [Array.getD_eq_getD_getElem?, Array.getElem_modify, within]
    · simp [Array.getD_eq_getD_getElem?, within]
  · simp [Array.getD_eq_getD_getElem?, Array.getElem?_modify, same]

theorem refers_setTable {machine : Machine} {id : Nat} {key : Key} {value : Value}
    {object target : Object} (refers : (machine.setTable id key value).Refers object target) :
    value.object? = some target ∨ machine.Refers object target := by
  cases refers with
  | cell found refers => exact .inr (.cell found refers)
  | table member refers =>
      rw [table_setTable] at member
      split at member
      · rcases mem_set member with rfl | member
        · exact .inl refers
        · exact .inr (.table member refers)
      · exact .inr (.table member refers)
  | function found member => exact .inr (.function found member)

/-! Adding an object. Before that it refers to nothing. -/

theorem missing_refers {machine : Machine} {object target : Object}
    (missing : ¬ machine.Stores object) : ¬ machine.Refers object target := by
  intro refers
  cases refers with
  | cell found _ => exact missing (Array.getElem?_eq_some_iff.mp found).1
  | table member _ =>
      rw [table, Array.getD_eq_getD_getElem?,
        Array.getElem?_eq_none (Nat.le_of_not_lt missing)] at member
      cases member
  | function found _ =>
      rw [callable, Array.getD_eq_getD_getElem?,
        Array.getElem?_eq_none (Nat.le_of_not_lt missing)] at found
      cases found

theorem newCell_found {machine : Machine} {id : Nat} {value held : Value}
    (found : (machine.newCell value).cells[id]? = some held) :
    held = value ∨ machine.cells[id]? = some held := by
  change (machine.cells.push value)[id]? = some held at found
  rw [Array.getElem?_push] at found
  by_cases fresh : id = machine.cells.size
  · rw [if_pos fresh] at found
    cases found
    exact .inl rfl
  · rw [if_neg fresh] at found
    exact .inr found

theorem refers_newCell {machine : Machine} {value : Value} {object target : Object}
    (refers : (machine.newCell value).Refers object target) :
    value.object? = some target ∨ machine.Refers object target := by
  cases refers with
  | cell found refers =>
      rcases newCell_found found with rfl | found
      · exact .inl refers
      · exact .inr (.cell found refers)
  | table member refers => exact .inr (.table member refers)
  | function found member => exact .inr (.function found member)

theorem refers_newGlobal {machine : Machine} {name : String} {value : Value}
    {object target : Object} (refers : (machine.newGlobal name value).Refers object target) :
    value.object? = some target ∨ machine.Refers object target := by
  apply refers_newCell
  cases refers with
  | cell found refers => exact .cell found refers
  | table member refers => exact .table member refers
  | function found member => exact .function found member

theorem table_newTable (machine : Machine) (id : Nat) :
    machine.newTable.2.table id = machine.table id := by
  unfold newTable table
  by_cases fresh : id = machine.tables.size
  · simp [Array.getD_eq_getD_getElem?, fresh]
  · simp [Array.getD_eq_getD_getElem?, Array.getElem?_push, fresh]

theorem refers_newTable {machine : Machine} {object target : Object}
    (refers : machine.newTable.2.Refers object target) : machine.Refers object target := by
  cases refers with
  | cell found refers => exact .cell found refers
  | table member refers =>
      rw [table_newTable] at member
      exact .table member refers
  | function found member => exact .function found member

theorem callable_newFunction (machine : Machine) (callable : Callable) (id : Nat) :
    (machine.newFunction callable).2.callable id =
      if id = machine.functions.size then callable else machine.callable id := by
  unfold newFunction Machine.callable
  by_cases fresh : id = machine.functions.size
  · simp [Array.getD_eq_getD_getElem?, fresh]
  · simp [Array.getD_eq_getD_getElem?, Array.getElem?_push, fresh]

theorem refers_newFunction {machine : Machine} {callable : Callable} {object target : Object}
    (refers : (machine.newFunction callable).2.Refers object target) :
    (∃ closure binding, callable = .closure closure ∧ binding ∈ closure.capture.bindings ∧
      target = .cell binding.2) ∨ machine.Refers object target := by
  cases refers with
  | cell found refers => exact .inr (.cell found refers)
  | table member refers => exact .inr (.table member refers)
  | function found member =>
      rw [callable_newFunction] at found
      split at found
      · exact .inl ⟨_, _, found, member, rfl⟩
      · exact .inr (.function found member)

theorem stores_alike {machine next : Machine} (alike : Alike machine next) (object : Object)
    (stores : machine.Stores object) : next.Stores object := by
  cases object with
  | cell id => exact Nat.lt_of_lt_of_eq stores alike.cells
  | table id => exact Nat.lt_of_lt_of_eq stores alike.tables
  | function id => exact Nat.lt_of_lt_of_eq stores alike.functions

theorem stores_newCell (machine : Machine) (value : Value) (object : Object) :
    (machine.newCell value).Stores object ↔
      machine.Stores object ∨ object = .cell machine.cells.size := by
  cases object with
  | cell id =>
      change id < (machine.cells.push value).size ↔ id < machine.cells.size ∨ _
      rw [Array.size_push, Nat.lt_succ_iff_lt_or_eq, Object.cell.injEq]
  | table id | function id => exact ⟨.inl, fun either => either.resolve_right nofun⟩

theorem stores_newTable (machine : Machine) (object : Object) :
    machine.newTable.2.Stores object ↔
      machine.Stores object ∨ object = .table machine.tables.size := by
  cases object with
  | table id =>
      change id < (machine.tables.push {}).size ↔ id < machine.tables.size ∨ _
      rw [Array.size_push, Nat.lt_succ_iff_lt_or_eq, Object.table.injEq]
  | cell id | function id => exact ⟨.inl, fun either => either.resolve_right nofun⟩

theorem stores_newFunction (machine : Machine) (callable : Callable) (object : Object) :
    (machine.newFunction callable).2.Stores object ↔
      machine.Stores object ∨ object = .function machine.functions.size := by
  cases object with
  | function id =>
      change id < (machine.functions.push callable).size ↔ id < machine.functions.size ∨ _
      rw [Array.size_push, Nat.lt_succ_iff_lt_or_eq, Object.function.injEq]
  | cell id | table id => exact ⟨.inl, fun either => either.resolve_right nofun⟩

end Machine

/-! Putting names. -/

theorem Scope.cell_mem {scope : Scope} {name : String} {cell : Nat}
    (found : scope.cell? name = some cell) : (name, cell) ∈ scope.bindings := by
  obtain ⟨front, behind, same, _⟩ := List.lookup_eq_some_iff.mp found
  rw [same]
  simp

/-- A name is put to a cell that the scope binds, or to a new one. -/
theorem Scope.put_cases (scope : Scope) (cells : Cells) (name : String) (value : Value) :
    (∃ cell, (name, cell) ∈ scope.bindings ∧
      scope.put cells name value = (scope, cells.setIfInBounds cell value)) ∨
    (scope.cell? name = none ∧
      scope.put cells name value =
        (⟨scope.bindings ++ [(name, cells.size)]⟩, cells.push value)) := by
  unfold put
  cases bound : scope.cell? name with
  | some cell => exact .inl ⟨cell, cell_mem bound, rfl⟩
  | none => exact .inr ⟨rfl, rfl⟩

theorem Machine.putGlobal_cases (machine : Machine) (name : String) (value : Value) :
    (∃ cell, (name, cell) ∈ machine.globals.bindings ∧
      machine.putGlobal name value = machine.writeCell cell value) ∨
    (machine.globals.cell? name = none ∧
      machine.putGlobal name value = machine.newGlobal name value) := by
  unfold putGlobal
  rcases machine.globals.put_cases machine.cells name value with
    ⟨cell, member, same⟩ | ⟨unbound, same⟩
  · rw [same]
    exact .inl ⟨cell, member, rfl⟩
  · rw [same]
    exact .inr ⟨unbound, rfl⟩

end LuaCore
