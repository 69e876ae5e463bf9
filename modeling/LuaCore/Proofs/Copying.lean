import LuaCore.Evaluation
import LuaCore.Proofs.Denoting
import LuaCore.Proofs.Heap

/-!
Copies of values: what a table constructor builds from entries. Each constructor makes its table
before its fields are evaluated, so that everything its fields hold is newer than it.
-/

namespace LuaCore

open Evaluation

/-- The second value has the shape of the first one, each on its own machine: the same keys and the
same values at every depth, wherever its entries stand. The tables of the second value are numbered
from `old` on. -/
inductive SameShape (machine : Machine) (old : Nat) (next : Machine) : Value → Value → Prop where
  | boolean (value : Bool) : SameShape machine old next (.boolean value) (.boolean value)
  | number (value : Float) : SameShape machine old next (.number value) (.number value)
  | string (value : String) : SameShape machine old next (.string value) (.string value)
  | table {id copy : Nat} (fresh : old ≤ copy) (stored : copy < next.tables.size)
      (keys : (next.table copy).keys.Perm (machine.table id).keys)
      (values : ∀ key ∈ (machine.table id).keys,
        SameShape machine old next ((machine.table id).get key) ((next.table copy).get key)) :
      SameShape machine old next (.table id) (.table copy)

variable {machine : Machine} {old low : Nat} {state next last : Machine}

theorem sameShape_older {value copy : Value} (below : low ≤ old)
    (same : SameShape machine old next value copy) : SameShape machine low next value copy := by
  induction same with
  | boolean value => exact .boolean value
  | number value => exact .number value
  | string value => exact .string value
  | table fresh stored keys _ ih => exact .table (Nat.le_trans below fresh) stored keys ih

/-- The tables of a range are still there. -/
structure Preserves (old : Nat) (state next : Machine) : Prop where
  size : state.tables.size ≤ next.tables.size
  tables : ∀ id, old ≤ id → id < state.tables.size → next.table id = state.table id

theorem preserves_refl (old : Nat) (state : Machine) : Preserves old state state :=
  ⟨Nat.le_refl _, fun _ _ _ => rfl⟩

theorem sameShape_kept {value copy : Value} (preserves : Preserves old state next)
    (same : SameShape machine old state value copy) : SameShape machine old next value copy := by
  induction same with
  | boolean value => exact .boolean value
  | number value => exact .number value
  | string value => exact .string value
  | table fresh stored keys _ ih =>
      have kept := preserves.tables _ fresh stored
      refine .table fresh (Nat.lt_of_lt_of_le stored preserves.size) (by rwa [kept]) ?_
      rw [kept]
      exact ih

/-! Tables from entries. -/

namespace Table

theorem put_fresh {key : Key} {value : Value} {entries : List (Key × Value)}
    (fresh : key ∉ entries.map Prod.fst) : put key value entries = entries ++ [(key, value)] := by
  induction entries with
  | nil => rfl
  | cons entry entries ih =>
      obtain ⟨other, behind⟩ := not_or.mp (mt List.mem_cons.mpr fresh)
      rw [put, if_neg (Ne.symm other), ih behind, List.cons_append]

theorem keys_put (key : Key) (value : Value) (entries : List (Key × Value)) :
    (put key value entries).map Prod.fst =
      if key ∈ entries.map Prod.fst then entries.map Prod.fst
      else entries.map Prod.fst ++ [key] := by
  by_cases present : key ∈ entries.map Prod.fst
  · rw [if_pos present]
    induction entries with
    | nil => exact absurd present List.not_mem_nil
    | cons entry entries ih =>
        by_cases same : entry.1 = key
        · rw [put, if_pos same]
          rfl
        · have behind := (List.mem_cons.mp present).resolve_left (Ne.symm same)
          rw [put, if_neg same, List.map_cons, List.map_cons, ih behind]
  · rw [if_neg present, put_fresh present, List.map_append]
    rfl

theorem set_nonnil (table : Table) (key : Key) {value : Value} (nonnil : value ≠ .nil) :
    table.set key value = ⟨put key value table.entries⟩ := by
  cases value with
  | nil => exact absurd rfl nonnil
  | _ => rfl

/-- A key that is not there is added at the end. -/
theorem set_absent {table : Table} {key : Key} {value : Value} (absent : key ∉ table.keys)
    (nonnil : value ≠ .nil) : table.set key value = ⟨table.entries ++ [(key, value)]⟩ := by
  rw [set_nonnil table key nonnil, put_fresh absent]

theorem keys_set_nil (table : Table) (key : Key) :
    (table.set key .nil).keys = table.keys.filter (· != key) := by
  change (table.entries.filter fun entry => entry.1 != key).map Prod.fst = _
  rw [keys, List.filter_map]
  rfl

theorem keys_set (table : Table) (key : Key) {value : Value} (nonnil : value ≠ .nil) :
    (table.set key value).keys = if key ∈ table.keys then table.keys else table.keys ++ [key] := by
  rw [set_nonnil table key nonnil]
  exact keys_put key value table.entries

theorem keys_set_iff (table : Table) (key : Key) (value : Value) (other : Key) :
    other ∈ (table.set key value).keys ↔
      if other = key then value ≠ .nil else other ∈ table.keys := by
  by_cases nonnil : value = .nil
  · subst nonnil
    rw [keys_set_nil]
    by_cases asked : other = key <;> simp [asked]
  · rw [keys_set table key nonnil]
    by_cases asked : other = key <;> by_cases there : key ∈ table.keys <;>
      simp [asked, there, nonnil]

/-- No key is there twice, however entries are set. -/
theorem set_distinct {table : Table} (distinct : table.keys.Nodup) (key : Key) (value : Value) :
    (table.set key value).keys.Nodup := by
  by_cases nonnil : value = .nil
  · rw [nonnil, keys_set_nil]
    exact distinct.filter _
  · rw [keys_set table key nonnil]
    by_cases present : key ∈ table.keys
    · rw [if_pos present]
      exact distinct
    · rw [if_neg present]
      refine List.nodup_append.mpr ⟨distinct, List.pairwise_singleton _ key, ?_⟩
      rintro old member _ added rfl
      exact present (List.mem_singleton.mp added ▸ member)

/-- The values of all entries are set one after the other. -/
def setAll (table : Table) (entries : List (Key × Value)) : Table :=
  entries.foldl (fun table entry => table.set entry.1 entry.2) table

/-- Distinct keys are kept in their order. -/
theorem setAll_fresh {table : Table} {entries : List (Key × Value)}
    (distinct : ((table.entries ++ entries).map Prod.fst).Nodup)
    (nonnil : ∀ entry ∈ entries, entry.2 ≠ .nil) :
    table.setAll entries = ⟨table.entries ++ entries⟩ := by
  induction entries generalizing table with
  | nil =>
      rw [List.append_nil]
      rfl
  | cons entry entries ih =>
      obtain ⟨first, others⟩ := List.forall_mem_cons.mp nonnil
      have fresh : entry.1 ∉ table.entries.map Prod.fst := by
        rw [List.map_append] at distinct
        intro member
        exact (List.nodup_append.mp distinct).2.2 _ member _ List.mem_cons_self rfl
      have added : table.set entry.1 entry.2 = ⟨table.entries ++ [entry]⟩ := set_absent fresh first
      have behind := @ih ⟨table.entries ++ [entry]⟩ (by simpa using distinct) others
      calc table.setAll (entry :: entries) = (table.set entry.1 entry.2).setAll entries := rfl
        _ = ⟨table.entries ++ [entry] ++ entries⟩ := by rw [added, behind]
        _ = ⟨table.entries ++ entry :: entries⟩ := by rw [List.append_assoc, List.singleton_append]

theorem get_mem {table : Table} (distinct : table.keys.Nodup) {key : Key} {value : Value}
    (member : (key, value) ∈ table.entries) : table.get key = value := by
  obtain ⟨front, behind, same⟩ := List.append_of_mem member
  rw [keys, same, List.map_append] at distinct
  have found : table.entries.lookup key = some value := by
    refine List.lookup_eq_some_iff.mpr ⟨front, behind, same, ?_⟩
    intro entry earlier
    have apart := (List.nodup_append.mp distinct).2.2 _ (List.mem_map_of_mem earlier) _
      List.mem_cons_self
    exact bne_iff_ne.mpr (Ne.symm apart)
  rw [get, found]
  rfl

theorem contains_iff {table : Table} {key : Key} : table.contains key ↔ key ∈ table.keys := by
  rw [contains, List.lookup_isSome_iff, keys, List.mem_map]
  exact exists_congr fun entry => and_congr_right fun _ => by rw [beq_iff_eq, eq_comm]

theorem mem_get {table : Table} {key : Key} (member : key ∈ table.keys) :
    (key, table.get key) ∈ table.entries := by
  obtain ⟨value, found⟩ := Option.isSome_iff_exists.mp (contains_iff.mpr member)
  obtain ⟨front, behind, same, _⟩ := List.lookup_eq_some_iff.mp found
  rw [get, found, same]
  exact List.mem_append_right _ List.mem_cons_self

end Table

/-! Expressions that build copies. -/

/-- Wherever it is evaluated, the expression gives a new copy of the value and leaves the tables
that there are alone. -/
def Builds (machine : Machine) (value : Value) (expression : Expression) : Prop :=
  ∀ call fuel scope state, ∃ copy next,
    evaluate call fuel scope expression state = .done copy next ∧ Preserves 0 state next ∧
      SameShape machine state.tables.size next value copy

theorem builds_boolean (machine : Machine) (value : Bool) :
    Builds machine (.boolean value) (.boolean value) :=
  fun _ _ _ state => ⟨_, state, rfl, preserves_refl 0 state, .boolean value⟩

theorem builds_number (machine : Machine) (value : Float) :
    Builds machine (.number value) (.number value) :=
  fun _ _ _ state => ⟨_, state, rfl, preserves_refl 0 state, .number value⟩

theorem builds_string (machine : Machine) (value : String) :
    Builds machine (.string value) (.string value) :=
  fun _ _ _ state => ⟨_, state, rfl, preserves_refl 0 state, .string value⟩

theorem sameShape_nonnil {value copy : Value} (same : SameShape machine old next value copy) :
    copy ≠ .nil := by
  cases same <;> exact Value.noConfusion

/-- The fields build copies of the entries, from a position on. -/
inductive Fills (machine : Machine) : Nat → List (Key × Value) → List Field → Prop where
  | nil (position : Nat) : Fills machine position [] []
  | positional {position : Nat} {value : Value} {expression : Expression}
      {entries : List (Key × Value)} {fields : List Field}
      (builds : Builds machine value expression)
      (others : Fills machine (position + 1) entries fields) :
      Fills machine position ((.position position, value) :: entries)
        (.positional expression :: fields)
  | keyed {position : Nat} {key : Key} {value : Value} {expression : Expression} {field : Field}
      {entries : List (Key × Value)} {fields : List Field} (hasKey : HasKey key expression field)
      (builds : Builds machine value expression) (others : Fills machine position entries fields) :
      Fills machine position ((key, value) :: entries) (field :: fields)

/-- What is filled in: copies of the entries, all newer than the table. -/
def CopiesOf (machine : Machine) (old : Nat) (next : Machine)
    (entries copies : List (Key × Value)) : Prop :=
  List.Forall₂ (fun entry copy => copy.1 = entry.1 ∧ SameShape machine old next entry.2 copy.2)
    entries copies

/-- How the fields of a table end: the table has the copies, and no other table that there was is
touched. -/
structure Filled (machine : Machine) (id : Nat) (state next : Machine)
    (entries copies : List (Key × Value)) : Prop where
  size : state.tables.size ≤ next.tables.size
  others : ∀ other, other < state.tables.size → other ≠ id → next.table other = state.table other
  filled : next.table id = (state.table id).setAll copies
  copies : CopiesOf machine (id + 1) next entries copies

theorem size_setTable (state : Machine) (id : Nat) (key : Key) (value : Value) :
    (state.setTable id key value).tables.size = state.tables.size :=
  Array.size_modify ..

/-- One more entry in front. -/
theorem filled_cons {id : Nat} (stored : id < state.tables.size) {key : Key} {value copy : Value}
    {middle : Machine} (preserves : Preserves 0 state middle)
    (same : SameShape machine state.tables.size middle value copy)
    {entries copies : List (Key × Value)}
    (filled : Filled machine id (middle.setTable id key copy) next entries copies) :
    Filled machine id state next ((key, value) :: entries) ((key, copy) :: copies) := by
  have size : (middle.setTable id key copy).tables.size = middle.tables.size :=
    size_setTable middle id key copy
  have within : id < middle.tables.size := Nat.lt_of_lt_of_le stored preserves.size
  have untouched (other : Nat) (there : other < middle.tables.size) (apart : other ≠ id) :
      next.table other = middle.table other := by
    rw [filled.others other (size ▸ there) apart, Machine.table_setTable,
      if_neg fun both => apart both.1.symm]
  refine ⟨?_, ?_, ?_, .cons ⟨rfl, ?_⟩ filled.copies⟩
  · exact Nat.le_trans preserves.size (size ▸ filled.size)
  · intro other there apart
    rw [untouched other (Nat.lt_of_lt_of_le there preserves.size) apart,
      preserves.tables other (Nat.zero_le other) there]
  · rw [filled.filled, Machine.table_setTable, if_pos ⟨rfl, within⟩,
      preserves.tables id (Nat.zero_le id) stored]
    rfl
  · have kept : Preserves (id + 1) middle next := by
      refine ⟨size ▸ filled.size, ?_⟩
      intro other above there
      exact untouched other there (Nat.ne_of_gt above)
    exact sameShape_kept kept (sameShape_older stored same)

section Filling

variable {call : Caller} {fuel : Nat} {scope : Scope}

theorem bind_done {α β : Type} {first : Eval α} {behind : α → Eval β} {value : α}
    {middle : Machine} {outcome : Outcome β} (done : first state = .done value middle)
    (done' : behind value middle = outcome) : (first >>= behind) state = outcome := by
  change Eval.bind first behind state = outcome
  rw [Eval.bind, done]
  exact done'

/-- A field evaluates its key, then its value, and sets the entry. -/
theorem fillTable_keyed {key : Key} {value : Expression} {field : Field}
    (hasKey : HasKey key value field) {id position : Nat} {fields : List Field} {copy : Value}
    {middle : Machine} (done : evaluate call fuel scope value state = .done copy middle) :
    fillTable call fuel scope id position (field :: fields) state =
      fillTable call fuel scope id position fields (middle.setTable id key copy) := by
  cases hasKey with
  | named name => exact bind_done done (bind_done rfl rfl)
  | @number x n exact' =>
      have whole : requireKey (.number x) state = .done (.integer n) state := by
        rw [requireKey, Value.toKey?, Value.numberKey, exact']
        rfl
      exact bind_done rfl (bind_done whole (bind_done done (bind_done rfl rfl)))
  | string text => exact bind_done rfl (bind_done rfl (bind_done done (bind_done rfl rfl)))

theorem fillTable_filled {id position : Nat} {entries : List (Key × Value)} {fields : List Field}
    (fills : Fills machine position entries fields) (stored : id < state.tables.size) :
    ∃ next copies, fillTable call fuel scope id position fields state = .done () next ∧
      Filled machine id state next entries copies := by
  induction fills generalizing state with
  | nil position =>
      exact ⟨state, [], rfl, Nat.le_refl _, fun _ _ _ => rfl, rfl, .nil⟩
  | @positional position value expression entries fields builds others ih =>
      obtain ⟨copy, middle, done, preserves, same⟩ := builds call fuel scope state
      have within : id < (middle.setTable id (.position position) copy).tables.size := by
        rw [size_setTable]
        exact Nat.lt_of_lt_of_le stored preserves.size
      obtain ⟨next, copies, rest, filled⟩ := ih within
      exact ⟨next, _, bind_done done (bind_done rfl rest), filled_cons stored preserves same filled⟩
  | @keyed position key value expression field entries fields hasKey builds others ih =>
      obtain ⟨copy, middle, done, preserves, same⟩ := builds call fuel scope state
      have within : id < (middle.setTable id key copy).tables.size := by
        rw [size_setTable]
        exact Nat.lt_of_lt_of_le stored preserves.size
      obtain ⟨next, copies, rest, filled⟩ := ih within
      exact ⟨next, _, (fillTable_keyed hasKey done).trans rest,
        filled_cons stored preserves same filled⟩

end Filling

/-! Copies of whole tables. -/

theorem copies_keys {entries copies : List (Key × Value)}
    (same : CopiesOf machine old next entries copies) :
    copies.map Prod.fst = entries.map Prod.fst := by
  induction same with
  | nil => rfl
  | cons first _ ih => rw [List.map_cons, List.map_cons, first.1, ih]

theorem copies_nonnil {entries copies : List (Key × Value)}
    (same : CopiesOf machine old next entries copies) : ∀ copy ∈ copies, copy.2 ≠ .nil := by
  induction same with
  | nil => exact fun _ member => absurd member List.not_mem_nil
  | cons first _ ih => exact List.forall_mem_cons.mpr ⟨sameShape_nonnil first.2, ih⟩

theorem copies_mem {entries copies : List (Key × Value)}
    (same : CopiesOf machine old next entries copies) {key : Key} {value : Value}
    (member : (key, value) ∈ entries) :
    ∃ copy, (key, copy) ∈ copies ∧ SameShape machine old next value copy := by
  induction same with
  | nil => exact absurd member List.not_mem_nil
  | @cons entry copy entries copies first _ ih =>
      rcases List.mem_cons.mp member with rfl | member
      · exact ⟨copy.2, List.mem_cons.mpr (.inl (Prod.ext first.1.symm rfl)), first.2⟩
      · obtain ⟨copy, found, same⟩ := ih member
        exact ⟨copy, List.mem_cons_of_mem _ found, same⟩

/-- A constructor with fields for the entries of a table, in some order, builds a copy of it. -/
theorem builds_table {id : Nat} {entries : List (Key × Value)} {fields : List Field}
    (distinct : (machine.table id).keys.Nodup) (whole : entries.Perm (machine.table id).entries)
    (fills : Fills machine 1 entries fields) : Builds machine (.table id) (.table fields) := by
  intro call fuel scope state
  have stored : state.tables.size < state.newTable.2.tables.size := by
    simp [Machine.newTable]
  obtain ⟨next, copies, done, filled⟩ :=
    @fillTable_filled _ _ call fuel scope state.tables.size _ _ _ fills stored
  have size : state.newTable.2.tables.size = state.tables.size + 1 := Array.size_push ..
  have keys := whole.map Prod.fst
  have distinct' : (copies.map Prod.fst).Nodup := by
    rw [copies_keys filled.copies]
    exact keys.nodup_iff.mpr distinct
  have empty : state.newTable.2.table state.tables.size = {} := by
    rw [Machine.table_newTable]
    simp [Machine.table, Array.getD_eq_getD_getElem?]
  have built : next.table state.tables.size = ⟨copies⟩ := by
    rw [filled.filled, empty, Table.setAll_fresh (by simpa using distinct')
      (copies_nonnil filled.copies)]
    rfl
  refine ⟨.table state.tables.size, next, bind_done rfl (bind_done done rfl), ?_, ?_⟩
  · refine ⟨by have := filled.size; omega, ?_⟩
    intro other _ there
    rw [filled.others other (by omega) (Nat.ne_of_lt there), Machine.table_newTable]
  · refine .table (Nat.le_refl _) (Nat.lt_of_lt_of_le stored filled.size) ?_ ?_
    · rw [built]
      exact (copies_keys filled.copies ▸ keys : (copies.map Prod.fst).Perm _)
    · intro key member
      have entry := whole.mem_iff.mpr (Table.mem_get member)
      obtain ⟨copy, found, same⟩ := copies_mem filled.copies entry
      rw [built, @Table.get_mem ⟨copies⟩ distinct' key copy found]
      exact sameShape_older (Nat.le_succ _) same

end LuaCore
