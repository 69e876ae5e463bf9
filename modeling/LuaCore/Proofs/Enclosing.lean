import LuaCore.Proofs.Fitting
import LuaCore.Proofs.Safety

/-!
Tables inside of tables. A table is shown by the marker exactly where it is inside of itself, and in
full everywhere else, however often it is met. Since every table that is shown in full is inside of
others only, a text is not nested deeper than there are tables.
-/

namespace LuaCore.Display

/-! The order of entries. -/

/-- The entries of a table in the order in which they are shown: the longest run of the keys from 1
on, and all others as they are stored. -/
structure Arranged (table : Table) (sequence others : List (Key × Value)) : Prop where
  whole : (sequence ++ others).Perm table.entries
  keys : sequence.map Prod.fst = (List.range sequence.length).map fun n => .position (n + 1)
  longest : .position (sequence.length + 1) ∉ table.keys
  order : others.Sublist table.entries

theorem position_injective : Function.Injective Key.position :=
  fun _ _ same => Int.ofNat.inj (Key.integer.inj same)

/-- A run of keys is no longer than its table. -/
theorem run_size {table : Table} {count : Nat}
    (run : ∀ n < count, .position (n + 1) ∈ table.keys) : count ≤ table.size := by
  have distinct : ((List.range count).map fun n => Key.position (n + 1)).Nodup :=
    List.nodup_range.map fun _ _ same => Nat.succ.inj (position_injective same)
  have within : ((List.range count).map fun n => Key.position (n + 1)) ⊆ table.keys := by
    intro key member
    obtain ⟨n, below, rfl⟩ := List.mem_map.mp member
    exact run n (List.mem_range.mp below)
  simpa [Table.keys, Table.size] using (List.subperm_of_subset distinct within).length_le

theorem sequenceLength_longest (table : Table) :
    .position (sequenceLength table + 1) ∉ table.keys := by
  intro present
  have run : ∀ n < sequenceLength table + 1, .position (n + 1) ∈ table.keys := by
    intro n below
    rcases Nat.lt_succ_iff_lt_or_eq.mp below with below | rfl
    · exact Table.contains_iff.mp (sequence_contains below)
    · exact present
  -- All of that run is counted, which is one key more than the length.
  have split : List.range table.size = List.range (sequenceLength table + 1) ++
      List.range' (sequenceLength table + 1) (table.size - (sequenceLength table + 1)) := by
    rw [List.range_eq_range', List.range_eq_range']
    conv_lhs => rw [← Nat.add_sub_cancel' (run_size run), ← List.range'_append_1, Nat.zero_add]
  have counted : sequenceLength table + 1 ≤ sequenceLength table := by
    conv_rhs => rw [sequenceLength, split, List.takeWhile_append_of_pos fun n below =>
      Table.contains_iff.mpr (run n (List.mem_range.mp below))]
    simp
  omega

theorem arranged_listing {table : Table} (distinct : table.keys.Nodup) :
    Arranged table (run table 1 (sequenceLength table))
      (table.entries.filter fun entry => !inSequence (sequenceLength table) entry.1) := by
  have length : (run table 1 (sequenceLength table)).length = sequenceLength table := by
    simp [run]
  refine ⟨listing_perm distinct, ?_, ?_, List.filter_sublist⟩
  · rw [length]
    simp [run, List.range'_eq_map_range, Function.comp_def, Nat.add_comm]
  · rw [length]
    exact sequenceLength_longest table

theorem sublist_filter {α : Type} [DecidableEq α] {first all : List α} (distinct : all.Nodup)
    (sublist : first.Sublist all) : first = all.filter (· ∈ first) := by
  induction sublist with
  | slnil => rfl
  | @cons first all a sublist ih =>
      obtain ⟨apart, distinct⟩ := List.nodup_cons.mp distinct
      have absent : a ∉ first := fun member => apart (sublist.subset member)
      rw [List.filter_cons_of_neg (by simpa using absent)]
      exact ih distinct
  | @cons_cons first all a sublist ih =>
      obtain ⟨apart, distinct⟩ := List.nodup_cons.mp distinct
      have same : all.filter (· ∈ a :: first) = all.filter (· ∈ first) := by
        refine List.filter_congr fun b member => ?_
        have other : b ≠ a := fun same => apart (same ▸ member)
        simp [other]
      rw [List.filter_cons_of_pos (by simp), same, ← ih distinct]

section Arranging

variable {table : Table} {sequence others sequence' others' : List (Key × Value)}

theorem arranged_run (arranged : Arranged table sequence others) :
    ∀ n < sequence.length, .position (n + 1) ∈ table.keys := by
  intro n below
  have member : Key.position (n + 1) ∈ sequence.map Prod.fst := by
    rw [arranged.keys]
    exact List.mem_map_of_mem (List.mem_range.mpr below)
  obtain ⟨entry, member, same⟩ := List.mem_map.mp member
  rw [← same]
  exact List.mem_map_of_mem (arranged.whole.mem_iff.mp (List.mem_append_left _ member))

theorem arranged_length (arranged : Arranged table sequence others)
    (arranged' : Arranged table sequence' others') : sequence.length = sequence'.length := by
  rcases Nat.lt_trichotomy sequence.length sequence'.length with shorter | same | longer
  · exact absurd (arranged_run arranged' _ shorter) arranged.longest
  · exact same
  · exact absurd (arranged_run arranged _ longer) arranged'.longest

/-- The entries of a sequence are what its keys have in the table. -/
theorem arranged_sequence (distinct : table.keys.Nodup)
    (arranged : Arranged table sequence others) :
    sequence = (List.range sequence.length).map fun n =>
      (.position (n + 1), table.get (.position (n + 1))) := by
  have values : ∀ entry ∈ sequence, entry = (entry.1, table.get entry.1) := by
    intro entry member
    have stored := arranged.whole.mem_iff.mp (List.mem_append_left others member)
    rw [Table.get_mem distinct stored]
  calc sequence = sequence.map fun entry => (entry.1, table.get entry.1) := by
        conv_lhs => rw [← List.map_id sequence]
        exact List.map_congr_left values
    _ = (sequence.map Prod.fst).map fun key => (key, table.get key) := by
        rw [List.map_map]
        rfl
    _ = _ := by
        rw [arranged.keys, List.map_map]
        rfl

/-- There is one order. -/
theorem arranged_unique (distinct : table.keys.Nodup) (arranged : Arranged table sequence others)
    (arranged' : Arranged table sequence' others') :
    sequence = sequence' ∧ others = others' := by
  have same : sequence = sequence' := by
    rw [arranged_sequence distinct arranged, arranged_sequence distinct arranged',
      arranged_length arranged arranged']
  subst same
  refine ⟨rfl, ?_⟩
  have entries : table.entries.Nodup := List.Nodup.of_map Prod.fst distinct
  have members : others.Perm others' :=
    (List.perm_append_left_iff sequence).mp (arranged.whole.trans arranged'.whole.symm)
  rw [sublist_filter entries arranged.order, sublist_filter entries arranged'.order]
  exact List.filter_congr fun entry _ => decide_eq_decide.mpr members.mem_iff

end Arranging

/-! Texts by the tables around them. -/

/-- The text of a value inside of some tables, with tables in it at most `depth` deep. A table that
is around the value is shown by the marker. Any other one is shown in full, with each of its entries
in its place. -/
inductive Displays (machine : Machine) (width : Option Int) :
    (depth : Nat) → (around : List Nat) → (indent : Int) → Value → List Char → Prop where
  | plain {depth : Nat} {around : List Nat} {indent : Int} {value : Value}
      (noTable : ∀ id, value ≠ .table id) :
      Displays machine width depth around indent value (item machine none 0 value)
  | marker {depth : Nat} {around : List Nat} {indent : Int} {id : Nat} (enclosing : id ∈ around) :
      Displays machine width depth around indent (.table id) ['{', '…', '}']
  | table {depth : Nat} {around : List Nat} {indent : Int} {id : Nat}
      {sequence others : List (Key × Value)} {text : Value → List Char} (apart : id ∉ around)
      (arranged : Arranged (machine.table id) sequence others)
      (inside : ∀ entry ∈ sequence ++ others,
        Displays machine width depth (id :: around) (indent + 4) entry.2 (text entry.2)) :
      Displays machine width (depth + 1) around indent (.table id)
        (layout width indent
          (sequence.map (fun entry => text entry.2) ++ others.map (entryText text)))

/-- The unseen tables are those of the machine that are not around. -/
structure Complements (machine : Machine) (around unseen : List Nat) : Prop where
  distinct : unseen.Nodup
  unseen_iff : ∀ id, machine.Stores (.table id) → (id ∈ unseen ↔ id ∉ around)

section Displaying

variable {machine : Machine} {width : Option Int} {around unseen : List Nat} {indent : Int}
  {value : Value}

theorem complements_none (machine : Machine) :
    Complements machine [] (List.range machine.tables.size) :=
  ⟨List.nodup_range, fun _ stored => iff_of_true (List.mem_range.mpr stored) List.not_mem_nil⟩

theorem complements_cons (complements : Complements machine around unseen) (id : Nat) :
    Complements machine (id :: around) (unseen.erase id) := by
  refine ⟨complements.distinct.erase id, ?_⟩
  intro other stored
  rw [complements.distinct.mem_erase_iff, complements.unseen_iff other stored, List.mem_cons,
    not_or]

/-- A value that is no table is shown alike everywhere. -/
theorem item_noTable (noTable : ∀ id, value ≠ .table id) :
    item machine none 0 value = itemWithin machine width unseen indent value := by
  cases value with
  | table id => exact absurd rfl (noTable id)
  | _ => simp only [item, itemWithin]

/-- Tables hold no tables but those that are there. -/
def Closed (machine : Machine) : Prop :=
  ∀ id inner, machine.Refers (.table id) (.table inner) → machine.Stores (.table inner)

/-- Texts leave all tables closed and their keys distinct, whatever they end with. -/
theorem executed_tables {verbosity : Nat} {session : Session}
    (executed : Executed verbosity session) :
    Closed session.machine ∧ session.machine.Distinct := by
  constructor
  · intro id inner refers
    have stored : session.machine.Stores (.table id) :=
      Classical.not_not.mp fun missing => Machine.missing_refers missing refers
    exact (executed_sound executed).closed (.table id) (.table inner) stored refers
  · induction executed with
    | start => exact start_distinct verbosity
    | execute _ ran ih => exact execute_distinct ih ran

theorem entry_stored (closed : Closed machine) {id inner : Nat} {entry : Key × Value}
    (member : entry ∈ (machine.table id).entries) (same : entry.2 = .table inner) :
    machine.Stores (.table inner) :=
  closed id inner (.table member (by rw [same]; rfl))

/-- The rules fix the text. -/
theorem displays_item (closed : Closed machine) (distinct : machine.Distinct) {depth : Nat}
    {text : List Char} (displays : Displays machine width depth around indent value text)
    (stored : ∀ id, value = .table id → machine.Stores (.table id))
    (complements : Complements machine around unseen) :
    text = itemWithin machine width unseen indent value := by
  induction displays generalizing unseen with
  | plain noTable => exact item_noTable noTable
  | marker enclosing =>
      have seen := mt (complements.unseen_iff _ (stored _ rfl)).mp (not_not_intro enclosing)
      rw [itemWithin, dif_neg seen]
  | @table depth around indent id sequence others text apart arranged inside ih =>
      have member := (complements.unseen_iff _ (stored _ rfl)).mpr apart
      obtain ⟨rfl, rfl⟩ := arranged_unique (distinct id) arranged (arranged_listing (distinct id))
      have same : ∀ entry ∈ listing (machine.table id), text entry.2 =
          itemWithin machine width (unseen.erase id) (indent + 4) entry.2 := by
        intro entry listed
        have held := (listing_perm (distinct id)).mem_iff.mp listed
        exact ih entry listed (fun _ => entry_stored closed held) (complements_cons complements id)
      rw [itemWithin_table width member, ← items_congr same, items_listing]

/-- The rules reach a text, with each table that is shown in full one level down. -/
theorem item_displayed (closed : Closed machine) (distinct : machine.Distinct)
    (stored : ∀ id, value = .table id → machine.Stores (.table id))
    (complements : Complements machine around unseen) :
    Displays machine width unseen.length around indent value
      (itemWithin machine width unseen indent value) := by
  induction unseen, indent, value using item_induction generalizing around with
  | plain unseen indent value plain =>
      cases value with
      | table id =>
          have seen : id ∉ unseen := fun member => plain id member rfl
          have enclosing := not_not.mp (mt (complements.unseen_iff _ (stored _ rfl)).mpr seen)
          rw [itemWithin, dif_neg seen]
          exact .marker enclosing
      | _ =>
          rw [← item_noTable (by simp)]
          exact .plain (by simp)
  | table unseen indent id member ih =>
      have apart := (complements.unseen_iff _ (stored _ rfl)).mp member
      have shorter : unseen.length = (unseen.erase id).length + 1 :=
        (List.length_erase_add_one member).symm
      rw [itemWithin_table width member, items_listing, shorter]
      refine .table apart (arranged_listing (distinct id)) ?_
      intro entry listed
      have held := (listing_perm (distinct id)).mem_iff.mp listed
      exact ih entry.2 (fun _ => entry_stored closed held) (complements_cons complements id)

end Displaying

/-- However tables refer to each other, a value has one text in which each table is shown by the
marker inside of itself and in full elsewhere, and that text is nested no deeper than there are
tables. -/
theorem item_displays {machine : Machine} {value : Value} (closed : Closed machine)
    (distinct : machine.Distinct) (stored : ∀ id, value = .table id → machine.Stores (.table id))
    (width : Option Int) (indent : Int) :
    Displays machine width machine.tables.size [] indent value (item machine width indent value) ∧
      ∀ depth text, Displays machine width depth [] indent value text →
        text = item machine width indent value := by
  constructor
  · have displayed : Displays machine width (List.range machine.tables.size).length [] indent value
        (item machine width indent value) :=
      item_displayed closed distinct stored (complements_none machine)
    rwa [List.length_range] at displayed
  · intro depth text displays
    exact displays_item closed distinct displays stored (complements_none machine)

/-- A table that holds another one twice, which holds the first one. -/
def sharing : Machine :=
  { tables := #[⟨[(.integer 1, .table 1), (.integer 2, .table 1)]⟩, ⟨[(.integer 1, .table 0)]⟩] }

/-- What is met twice is shown twice, and what is around is shown by the marker. -/
theorem item_displays_shared :
    Closed sharing ∧ sharing.Distinct ∧ sharing.Stores (.table 0) ∧
      item sharing none 0 (.table 0) =
        ['{', '{', '{', '…', '}', '}', ',', ' ', '{', '{', '…', '}', '}', '}'] ∧
      Displays sharing none 2 [] 0 (.table 0) (item sharing none 0 (.table 0)) := by
  have held : ∀ id < 2, ∀ entry ∈ (sharing.table id).entries,
      entry.2 = .table 0 ∨ entry.2 = .table 1 := by decide
  have closed : Closed sharing := by
    intro id inner refers
    have within : sharing.Stores (.table id) :=
      Classical.not_not.mp fun missing => Machine.missing_refers missing refers
    cases refers with
    | table member refers =>
        rcases held id within _ member with rfl | rfl <;> cases refers <;> change _ < 2 <;> decide
  have distinct : sharing.Distinct := by
    intro id
    match id with
    | 0 | 1 => decide
    | id + 2 => exact List.nodup_nil
  have stored : sharing.Stores (.table 0) := Nat.zero_lt_two
  refine ⟨closed, distinct, stored, by cbv, ?_⟩
  exact (item_displays closed distinct (fun _ same => Value.table.inj same ▸ stored) none 0).1

end LuaCore.Display
