import Mathlib.Data.List.Nodup
import Mathlib.Logic.Relation
import LuaCore.Proofs.Copying
import LuaCore.Proofs.Keeping

/-!
Shown values read back: a program that returns what a shown value says returns a value of the same
shape, whatever the width and the indentation it is shown with.
-/

namespace LuaCore

open Lexer Tree.Grammar

/-! Keys of tables. -/

/-- No table has two entries with the same key. -/
def Machine.Distinct (machine : Machine) : Prop :=
  ∀ id, (machine.table id).keys.Nodup

theorem distinct_tables {machine next : Machine} (same : machine.tables = next.tables)
    (distinct : machine.Distinct) : next.Distinct := by
  intro id
  rw [Machine.table, ← same]
  exact distinct id

theorem distinct_setTable {machine : Machine} (id : Nat) (key : Key) (value : Value)
    (distinct : machine.Distinct) : (machine.setTable id key value).Distinct := by
  intro other
  rw [Machine.table_setTable]
  by_cases here : id = other ∧ id < machine.tables.size
  · rw [if_pos here]
    exact Table.set_distinct (distinct other) key value
  · rw [if_neg here]
    exact distinct other

theorem distinct_newTable {machine : Machine} (distinct : machine.Distinct) :
    machine.newTable.2.Distinct := by
  intro id
  rw [Machine.table_newTable]
  exact distinct id

/-- Programs that may do anything keep the keys of tables distinct. -/
def Discipline.distinctKeys : Discipline where
  knows _ _ := True
  demands := Machine.Distinct
  moves _ _ := True
  lenient := True
  moves_refl _ := True.intro
  moves_trans _ _ := True.intro
  knows_alike _ known := known
  knows_newCell _ _ _ := (or_iff_left_of_imp fun _ => True.intro).symm
  knows_newGlobal _ known := known
  newGlobal_knows _ known := .inl known
  knows_newTable _ _ := (or_iff_left_of_imp fun _ => True.intro).symm
  knows_newFunction _ _ _ := (or_iff_left_of_imp fun _ => True.intro).symm
  quiet quiet distinct := ⟨distinct_tables quiet.tables distinct, True.intro⟩
  depth _ distinct := distinct
  activation _ := True.intro
  writeCell _ distinct _ := ⟨distinct, True.intro⟩
  newCell _ distinct := ⟨distinct, True.intro⟩
  newGlobal _ _ distinct := ⟨distinct, True.intro⟩
  newTable distinct := ⟨distinct_newTable distinct, True.intro⟩
  newFunction _ distinct := ⟨distinct, True.intro⟩
  setTable value distinct _ _ := ⟨distinct_setTable _ _ value distinct, True.intro⟩

theorem start_distinct (verbosity : Nat) : (Session.start verbosity).machine.Distinct :=
  fun _ => List.nodup_nil

/-- A text keeps the keys of tables distinct, whatever it ends with. -/
theorem execute_distinct {session next : Session} {fuel : Nat} {source : String}
    {answer : Except RunError Value} (distinct : session.machine.Distinct)
    (ran : session.execute fuel source = some (answer, next)) : next.machine.Distinct := by
  have sound : Discipline.distinctKeys.Sound session.machine := by
    refine ⟨distinct, fun _ _ _ _ => True.intro, fun _ _ _ _ _ _ _ => True.intro, ?_⟩
    intro id _
    cases session.machine.callable id <;> exact .inl True.intro
  exact (execute_sound sound ran).demands

/-! Readable values. -/

/-- Values whose text tells all about them. A derivation is finite, so that no table is inside
itself. -/
inductive Readable (machine : Machine) : Value → Prop where
  | boolean (value : Bool) : Readable machine (.boolean value)
  | number {x : Float} (finite : Double.isFinite x)
      (survives : Double.Numeral.signed? (Double.plain x) = some x) : Readable machine (.number x)
  | string {text : String} (noReturn : '\r' ∉ text.toList) : Readable machine (.string text)
  | table {id : Nat} (stored : id < machine.tables.size) (distinct : (machine.table id).keys.Nodup)
      (keys : ∀ key ∈ (machine.table id).keys, key.Readable)
      (values : ∀ entry ∈ (machine.table id).entries, Readable machine entry.2) :
      Readable machine (.table id)

/-- A table holds a value. -/
def Child (machine : Machine) (child parent : Value) : Prop :=
  ∃ id, parent = .table id ∧ ∃ entry ∈ (machine.table id).entries, child = entry.2

section Nesting

variable {machine : Machine} {value : Value}

theorem readable_child {child : Value} (readable : Readable machine value)
    (held : Child machine child value) : Readable machine child := by
  obtain ⟨id, rfl, entry, member, rfl⟩ := held
  cases readable with
  | table _ _ _ values => exact values entry member

theorem readable_within {inner : Value} (within : Relation.ReflTransGen (Child machine) inner value)
    (readable : Readable machine value) : Readable machine inner := by
  induction within with
  | refl => exact readable
  | tail _ held ih => exact ih (readable_child readable held)

theorem readable_accessible (readable : Readable machine value) :
    Acc (Child machine) value := by
  induction readable with
  | table _ _ _ _ ih =>
      constructor
      rintro child ⟨id, ⟨⟩, entry, member, rfl⟩
      exact ih entry member
  | _ =>
      constructor
      rintro child ⟨id, ⟨⟩, _⟩

theorem accessible_irreflexive {α : Type} {relation : α → α → Prop} {a : α}
    (accessible : Acc relation a) : ¬ relation a a := by
  induction accessible with
  | intro a _ ih => exact fun related => ih a related related

/-- No table is inside what it holds. -/
theorem readable_acyclic {id : Nat} (readable : Readable machine (.table id))
    {entry : Key × Value} (member : entry ∈ (machine.table id).entries) :
    ¬ Relation.ReflTransGen (Child machine) (.table id) entry.2 := by
  intro within
  have cycle : Relation.TransGen (Child machine) (.table id) (.table id) :=
    .tail' within ⟨id, rfl, entry, member, rfl⟩
  exact accessible_irreflexive (readable_accessible readable).transGen cycle

end Nesting

/-! The entries of a table in the order in which they are shown. -/

namespace Display

/-- The entries with the keys from `start` on. -/
def run (table : Table) (start count : Nat) : List (Key × Value) :=
  (List.range' start count).map fun n => (.position n, table.get (.position n))

/-- The first keys from 1 on, then all others in their order. -/
def listing (table : Table) : List (Key × Value) :=
  run table 1 (sequenceLength table) ++
    table.entries.filter fun entry => !inSequence (sequenceLength table) entry.1

def entryText (text : Value → List Char) (entry : Key × Value) : List Char :=
  keyText entry.1 ++ [' ', '=', ' '] ++ text entry.2

theorem items_listing (table : Table) (text : Value → List Char) :
    items table text =
      (run table 1 (sequenceLength table)).map (fun entry => text entry.2) ++
        (table.entries.filter fun entry => !inSequence (sequenceLength table) entry.1).map
          (entryText text) := by
  have same : (run table 1 (sequenceLength table)).map (fun entry => text entry.2) =
      (List.range (sequenceLength table)).map fun n => text (table.get (.position (n + 1))) := by
    simp [run, List.range'_eq_map_range, Function.comp_def, Nat.add_comm]
  rw [same]
  rfl

theorem sequence_contains {table : Table} {n : Nat} (within : n < sequenceLength table) :
    table.contains (.position (n + 1)) := by
  let test (n : Nat) := table.contains (.position (n + 1))
  have front : (List.range table.size).takeWhile test <+: List.range table.size :=
    List.takeWhile_prefix test
  have bound := front.length_le
  have member : n ∈ (List.range table.size).takeWhile test := by
    rw [List.prefix_iff_eq_take.mp front, List.take_range, List.mem_range]
    rw [List.length_range] at bound
    exact Nat.lt_min.mpr ⟨within, Nat.lt_of_lt_of_le within bound⟩
  exact @List.mem_takeWhile_imp _ test _ _ member

theorem run_mem {table : Table} (distinct : table.keys.Nodup) (key : Key) (value : Value) :
    (key, value) ∈ run table 1 (sequenceLength table) ↔
      (key, value) ∈ table.entries ∧ inSequence (sequenceLength table) key := by
  constructor
  · intro member
    obtain ⟨n, within, same⟩ := List.mem_map.mp member
    obtain ⟨rfl, rfl⟩ := Prod.mk.inj same
    obtain ⟨above, below⟩ := List.mem_range'_1.mp within
    obtain ⟨earlier, rfl⟩ := Nat.exists_eq_succ_of_ne_zero (Nat.ne_of_gt above)
    have contains := sequence_contains (by omega : earlier < sequenceLength table)
    refine ⟨Table.mem_get (Table.contains_iff.mp contains), ?_⟩
    simp only [Key.position, inSequence, Bool.and_eq_true, decide_eq_true_eq]
    omega
  · rintro ⟨member, within⟩
    cases key with
    | name => cases within
    | integer n =>
        simp only [inSequence, Bool.and_eq_true, decide_eq_true_eq] at within
        have whole : (n.toNat : Int) = n := by omega
        refine List.mem_map.mpr ⟨n.toNat, List.mem_range'_1.mpr (by omega), ?_⟩
        rw [Key.position, whole, Table.get_mem distinct member]

theorem run_nodup (table : Table) (start count : Nat) : (run table start count).Nodup := by
  refine List.Nodup.map ?_ List.nodup_range'
  intro n m same
  have keys : Key.position n = Key.position m := congrArg Prod.fst same
  exact Int.ofNat.inj (Key.integer.inj keys)

/-- Nothing is lost, and nothing is shown twice. -/
theorem listing_perm {table : Table} (distinct : table.keys.Nodup) :
    (listing table).Perm table.entries := by
  have entries : table.entries.Nodup := List.Nodup.of_map Prod.fst distinct
  have front : (run table 1 (sequenceLength table)).Perm
      (table.entries.filter fun entry => inSequence (sequenceLength table) entry.1) := by
    apply (List.perm_ext_iff_of_nodup (run_nodup ..) (entries.filter _)).mpr
    rintro ⟨key, value⟩
    rw [run_mem distinct, List.mem_filter]
  exact (front.append_right _).trans (List.filter_append_perm _ _)

end Display

/-! Texts of values. -/

/-- What the text of a value is the text of. -/
def Tells (machine : Machine) (text : List Char) (value : Value) : Prop :=
  ∃ expression, Denotes .expression text expression ∧ Builds machine value expression

theorem denotes_positional {text : List Char} {value : Expression}
    (denotes : Denotes .expression text value) : Denotes .field text (.positional value) := by
  obtain ⟨starts, forms, spells, cuts⟩ := denotes
  exact ⟨starts, forms, spells_positional spells, cuts⟩

section Items

variable {machine : Machine} {text : Value → List Char}

theorem others_fill {entries : List (Key × Value)} (position : Nat)
    (keys : ∀ entry ∈ entries, entry.1.Readable)
    (tells : ∀ entry ∈ entries, Tells machine (text entry.2) entry.2) :
    ∃ fields, List.Forall₂ (Denotes .field) (entries.map (Display.entryText text)) fields ∧
      Fills machine position entries fields := by
  induction entries with
  | nil => exact ⟨[], .nil, .nil position⟩
  | cons entry entries ih =>
      obtain ⟨readable, keys⟩ := List.forall_mem_cons.mp keys
      obtain ⟨⟨expression, denotes, builds⟩, tells⟩ := List.forall_mem_cons.mp tells
      obtain ⟨field, hasKey, first⟩ := denotes_entry readable denotes
      obtain ⟨fields, others, fills⟩ := ih keys tells
      exact ⟨field :: fields, .cons first others, .keyed hasKey builds fills⟩

theorem run_fills {table : Table} {texts : List (List Char)} {entries : List (Key × Value)}
    {fields : List Field} (start count : Nat)
    (tells : ∀ entry ∈ Display.run table start count, Tells machine (text entry.2) entry.2)
    (behind : List.Forall₂ (Denotes .field) texts fields)
    (fills : Fills machine (start + count) entries fields) :
    ∃ fields, List.Forall₂ (Denotes .field)
        ((Display.run table start count).map (fun entry => text entry.2) ++ texts) fields ∧
      Fills machine start (Display.run table start count ++ entries) fields := by
  induction count generalizing start with
  | zero => exact ⟨fields, behind, fills⟩
  | succ count ih =>
      have split : Display.run table start (count + 1) =
          (.position start, table.get (.position start)) ::
            Display.run table (start + 1) count := by
        simp [Display.run, List.range'_succ]
      rw [split] at tells ⊢
      obtain ⟨⟨expression, denotes, builds⟩, tells⟩ := List.forall_mem_cons.mp tells
      have further : start + 1 + count = start + (count + 1) := by omega
      obtain ⟨fields, others, fills⟩ := ih (start + 1) tells (further ▸ fills)
      exact ⟨.positional expression :: fields, .cons (denotes_positional denotes) others,
        .positional builds fills⟩

/-- The text of a table from those of its values. -/
theorem layout_tells {id : Nat} (distinct : (machine.table id).keys.Nodup)
    (keys : ∀ key ∈ (machine.table id).keys, key.Readable)
    (tells : ∀ entry ∈ (machine.table id).entries, Tells machine (text entry.2) entry.2)
    (width : Option Int) (indent : Int) :
    Tells machine (Display.layout width indent (Display.items (machine.table id) text))
      (.table id) := by
  have whole := Display.listing_perm distinct
  have tells : ∀ entry ∈ Display.listing (machine.table id), Tells machine (text entry.2) entry.2 :=
    fun entry member => tells entry (whole.mem_iff.mp member)
  have keys : ∀ entry ∈ Display.listing (machine.table id), entry.1.Readable :=
    fun entry member => keys entry.1 (List.mem_map_of_mem (whole.mem_iff.mp member))
  obtain ⟨first, others⟩ := List.forall_mem_append.mp tells
  obtain ⟨fields, behind, fills⟩ :=
    others_fill (1 + Display.sequenceLength (machine.table id))
      (List.forall_mem_append.mp keys).2 others
  obtain ⟨fields, each, fills⟩ := run_fills 1 _ first behind fills
  rw [← Display.items_listing] at each
  exact ⟨.table fields, denotes_table each width indent, builds_table distinct whole fills⟩

end Items

/-- The text of a readable value, shown with all the tables in it unseen. -/
theorem item_tells {machine : Machine} {value : Value} (readable : Readable machine value)
    (width : Option Int) (unseen : List Nat) (indent : Int)
    (within : ∀ id, Relation.ReflTransGen (Child machine) (.table id) value → id ∈ unseen) :
    Tells machine (Display.itemWithin machine width unseen indent value) value := by
  induction readable generalizing unseen indent with
  | boolean value =>
      rw [Display.itemWithin]
      exact ⟨_, denotes_boolean value, builds_boolean machine value⟩
  | number finite survives =>
      rw [Display.itemWithin]
      exact ⟨_, denotes_number finite survives, builds_number machine _⟩
  | string noReturn =>
      rw [Display.itemWithin]
      exact ⟨_, denotes_string noReturn, builds_string machine _⟩
  | @table id stored distinct keys values ih =>
      have readable : Readable machine (.table id) := .table stored distinct keys values
      rw [Display.itemWithin, dif_pos (within id .refl)]
      refine layout_tells distinct keys ?_ width indent
      intro entry member
      apply ih entry member
      intro inner inside
      have apart : inner ≠ id := by
        rintro rfl
        exact readable_acyclic readable member inside
      have held : Child machine entry.2 (.table id) := ⟨id, rfl, entry, member, rfl⟩
      exact (List.mem_erase_of_ne apart).mpr (within inner (.tail inside held))

theorem parse_item {text : List Char} {value : Expression}
    (denotes : Denotes .expression text value) :
    parse ("return " ++ String.ofList text) = .ok [.returns value] := by
  obtain ⟨starts, forms, spells, cuts⟩ := denotes
  have program := spells_returns spells (makes_nothing none rfl trivial)
  rw [List.append_nil] at program
  have item : Cuts ([' '] ++ text) forms [] :=
    cuts_gap (by decide) (starts_append starts []) (cuts [] (by rintro c ⟨⟩))
  have word : Cuts "return".toList [.word .returnWord] (' ' :: (text ++ [])) :=
    (spoken_word .returnWord).cuts (text ++ [])
  have source : "return " ++ String.ofList text =
      String.ofList ("return".toList ++ ([' '] ++ text)) := by
    rw [← List.append_assoc, String.ofList_append]
    rfl
  rw [source]
  exact parse_cuts (cuts_append word item) program

theorem run_returns {fuel : Nat} {value : Expression} {copy : Value} {machine next : Machine}
    (done : Evaluation.evaluate (Evaluation.apply fuel) fuel {} value
      (machine.begin (Statement.returns value).summary) = .done copy next) :
    Evaluation.run fuel [.returns value] machine = .done copy next :=
  bind_done (bind_done (bind_done rfl (bind_done done rfl)) rfl) rfl

/-- A value that is shown in any width and at any indentation is read back: the program that
returns its text returns a copy of it. -/
theorem item_reads_back (session : Session) {machine : Machine} {value : Value}
    (readable : Readable machine value) (width : Option Int) (indent : Int) (fuel : Nat) :
    ∃ copy next,
      session.execute fuel
        ("return " ++ String.ofList (Display.item machine width indent value)) =
          some (.ok copy, next) ∧
      SameShape machine session.machine.tables.size next.machine value copy := by
  have within (id : Nat) (inside : Relation.ReflTransGen (Child machine) (.table id) value) :
      id ∈ List.range machine.tables.size := by
    cases readable_within inside readable with
    | table stored => exact List.mem_range.mpr stored
  obtain ⟨expression, denotes, builds⟩ := item_tells readable width _ indent within
  obtain ⟨copy, next, done, _, same⟩ := builds (Evaluation.apply fuel) fuel {}
    (session.machine.begin (Statement.returns expression).summary)
  rw [← (Machine.begin_quiet session.machine _).tables] at same
  refine ⟨copy, session.count next, ?_, same⟩
  rw [Session.execute, Display.item, parse_item denotes]
  change (session.run fuel [.returns expression]).map _ = _
  rw [Session.run, run_returns done]
  rfl

/-- A table with keys of all kinds, one of them a position, and a table inside it. -/
def nested : Machine :=
  { tables := #[
      ⟨[(.name "inner", .table 1), (.integer 1, .boolean true), (.integer (-2), .number (-0.0)),
        (.name "", .string "a\\b\nc")]⟩,
      ⟨[(.integer 1, .string "")]⟩] }

theorem nested_readable : Readable nested (.table 0) := by
  have one : Key.Readable (.integer 1) := ⟨1, by decide +kernel⟩
  have minusTwo : Key.Readable (.integer (-2)) := ⟨-2, by decide +kernel⟩
  have inner : Readable nested (.table 1) := by
    refine .table (by decide) (by decide) ?_ ?_
    · exact List.forall_mem_singleton.mpr one
    · exact List.forall_mem_singleton.mpr (.string (by decide))
  refine .table (by decide) (by decide) ?_ ?_
  · refine List.forall_mem_cons.mpr ⟨.inl (by decide), ?_⟩
    refine List.forall_mem_cons.mpr ⟨one, ?_⟩
    refine List.forall_mem_cons.mpr ⟨minusTwo, ?_⟩
    exact List.forall_mem_singleton.mpr (.inr ⟨by decide, by simp⟩)
  · refine List.forall_mem_cons.mpr ⟨inner, ?_⟩
    refine List.forall_mem_cons.mpr ⟨.boolean true, ?_⟩
    refine List.forall_mem_cons.mpr ⟨.number (by decide +kernel) (by decide +kernel), ?_⟩
    exact List.forall_mem_singleton.mpr (.string (by decide))

theorem item_reads_back_nested :
    Readable nested (.table 0) ∧ ∃ copy next,
      (Session.start 0).execute 0
        ("return " ++ String.ofList (Display.item nested (some 20) 4 (.table 0))) =
          some (.ok copy, next) ∧
      SameShape nested (Session.start 0).machine.tables.size next.machine (.table 0) copy :=
  ⟨nested_readable, item_reads_back (Session.start 0) nested_readable (some 20) 4 0⟩

end LuaCore
