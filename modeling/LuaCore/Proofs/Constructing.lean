import LuaCore.Proofs.Binding
import LuaCore.Proofs.Course
import LuaCore.Proofs.Safety
import LuaCore.Proofs.Writing

/-!
Table constructors. The fields are evaluated in their order, whatever they do, and nothing that they
do can come near the new table, since nothing refers to it yet. So the table is what the fields
write.
-/

namespace LuaCore

open Evaluation

/-! A table out of reach. -/

theorem sealed_tables {machine next : Machine} {id : Nat} {content : Table}
    (same : machine.tables = next.tables)
    (kept : machine.Stores (.table id) ∧ machine.table id = content) :
    next.Stores (.table id) ∧ next.table id = content := by
  rw [Machine.Stores, Machine.table, ← same]
  exact kept

/-- Programs that do not know a table leave it as it is. -/
def Discipline.sealed (id : Nat) (content : Table) : Discipline where
  knows _ object := object ≠ .table id
  demands machine := machine.Stores (.table id) ∧ machine.table id = content
  moves _ _ := True
  lenient := True
  moves_refl _ := True.intro
  moves_trans _ _ := True.intro
  knows_alike _ known := known
  knows_newCell _ _ _ := by
    refine ⟨.inl, ?_⟩
    rintro (known | rfl)
    · exact known
    · exact nofun
  knows_newGlobal _ known := known
  newGlobal_knows _ known := .inl known
  knows_newTable _ kept := by
    refine ⟨.inl, ?_⟩
    rintro (known | rfl)
    · exact known
    · exact fun same => Nat.lt_irrefl _ (Object.table.inj same ▸ kept.1)
  knows_newFunction _ _ _ := by
    refine ⟨.inl, ?_⟩
    rintro (known | rfl)
    · exact known
    · exact nofun
  quiet quiet kept := ⟨sealed_tables quiet.tables kept, True.intro⟩
  depth _ kept := kept
  activation _ := True.intro
  writeCell _ kept _ := ⟨kept, True.intro⟩
  newCell _ kept := ⟨kept, True.intro⟩
  newGlobal _ _ kept := ⟨kept, True.intro⟩
  newTable kept := by
    refine ⟨⟨(Machine.stores_newTable _ _).mpr (.inl kept.1), ?_⟩, True.intro⟩
    rw [Machine.table_newTable]
    exact kept.2
  newFunction _ kept := ⟨kept, True.intro⟩
  setTable value kept known _ := by
    refine ⟨⟨Machine.stores_alike (Machine.setTable_alike ..) _ kept.1, ?_⟩, True.intro⟩
    rw [Machine.table_setTable, if_neg fun both => known (congrArg Object.table both.1)]
    exact kept.2

section

variable {machine after : Machine} {scope : Scope} {id : Nat} {content : Table}

theorem sealed_sees : (Discipline.sealed id content).Sees machine scope :=
  fun _ _ => nofun

/-- A new table is out of reach. -/
theorem sealed_new
    (unreferred : ∀ object, ¬ machine.Refers object (.table machine.tables.size)) :
    (Discipline.sealed machine.tables.size {}).Sound machine.newTable.2 := by
  have empty : machine.newTable.2.table machine.tables.size = {} := by
    rw [Machine.table_newTable]
    simp [Machine.table, Array.getD_eq_getD_getElem?]
  have apart {object target : Object} (refers : machine.newTable.2.Refers object target) :
      target ≠ .table machine.tables.size := by
    rintro rfl
    exact unreferred object (Machine.refers_newTable refers)
  refine ⟨⟨(Machine.stores_newTable ..).mpr (.inr rfl), empty⟩, ?_, ?_, ?_⟩
  · intro object target _ refers
    exact apart refers
  · intro name cell value _ found target refers
    exact apart (.cell found refers)
  · intro other _
    cases machine.newTable.2.callable other <;> exact .inl True.intro

/-- A value that a program may have is written to the table. -/
theorem sealed_set (sound : (Discipline.sealed id content).Sound machine) (key : Key)
    {value : Value} (holds : (Discipline.sealed id content).Holds machine value) :
    (Discipline.sealed id (content.set key value)).Sound (machine.setTable id key value) := by
  have alike := Machine.setTable_alike machine id key value
  refine ⟨⟨Machine.stores_alike alike _ sound.demands.1, ?_⟩, ?_, ?_, ?_⟩
  · rw [Machine.table_setTable, if_pos ⟨rfl, sound.demands.1⟩, sound.demands.2]
  · intro object target known refers
    rcases Machine.refers_setTable refers with written | old
    · exact holds target written
    · exact sound.closed object target known old
  · exact sound.globals
  · intro other _
    cases (machine.setTable id key value).callable other <;> exact .inl True.intro

end

/-! Fields. -/

def Field.isPositional : Field → Bool
  | .positional _ => true
  | _ => false

/-- The fields are evaluated in their order, each on the machine that the one before has left, a key
before its value. Each field writes one entry. -/
inductive Assigns (fuel : Nat) (scope : Scope) (id : Nat) :
    (position : Nat) → Machine → List Field → List (Key × Value) → Machine → Prop where
  | nil (position : Nat) (machine : Machine) : Assigns fuel scope id position machine [] [] machine
  | positional {position : Nat} {machine between after : Machine} {value : Expression}
      {given : Value} {fields : List Field} {writes : List (Key × Value)}
      (gives : Gives fuel scope machine value given between)
      (others : Assigns fuel scope id (position + 1)
        (between.setTable id (.position position) given) fields writes after) :
      Assigns fuel scope id position machine (.positional value :: fields)
        ((.position position, given) :: writes) after
  | named {position : Nat} {machine between after : Machine} {name : String} {value : Expression}
      {given : Value} {fields : List Field} {writes : List (Key × Value)}
      (gives : Gives fuel scope machine value given between)
      (others : Assigns fuel scope id position (between.setTable id (.name name) given) fields
        writes after) :
      Assigns fuel scope id position machine (.named name value :: fields)
        ((.name name, given) :: writes) after
  | keyed {position : Nat} {machine middle between after : Machine} {key value : Expression}
      {asked given : Value} {stored : Key} {fields : List Field} {writes : List (Key × Value)}
      (asks : Gives fuel scope machine key asked middle) (stands : asked.toKey? = some stored)
      (gives : Gives fuel scope middle value given between)
      (others : Assigns fuel scope id position (between.setTable id stored given) fields writes
        after) :
      Assigns fuel scope id position machine (.keyed key value :: fields)
        ((stored, given) :: writes) after

section

variable {fuel : Nat} {scope : Scope} {id position : Nat} {machine middle after : Machine}
  {fields before rest : List Field} {writes : List (Key × Value)}

/-- Only positional fields count. -/
theorem assigns_positions (assigns : Assigns fuel scope id position machine fields writes after)
    {n : Nat} {value : Expression} (field : fields[n]? = some (.positional value)) :
    writes[n]?.map Prod.fst =
      some (.position (position + (fields.take n).countP Field.isPositional)) := by
  induction assigns generalizing n with
  | nil => cases field
  | positional _ _ ih =>
      cases n with
      | zero => rfl
      | succ n =>
          rw [List.getElem?_cons_succ, ih field, List.take_succ_cons,
            List.countP_cons_of_pos (by rfl), Nat.add_assoc, Nat.add_comm 1]
  | named _ _ ih | keyed _ _ _ _ ih =>
      cases n with
      | zero => cases field
      | succ n =>
          rw [List.getElem?_cons_succ, ih field, List.take_succ_cons,
            List.countP_cons_of_neg (by simp [Field.isPositional])]

theorem assigns_sealed {content : Table}
    (assigns : Assigns fuel scope id position machine fields writes after)
    (sound : (Discipline.sealed id content).Sound machine) :
    (Discipline.sealed id (content.setAll writes)).Sound after := by
  induction assigns generalizing content with
  | nil => exact sound
  | positional gives _ ih | named gives _ ih =>
      obtain ⟨keeps, holds⟩ := Discipline.gives_keeps True.intro sound sealed_sees gives
      exact ih (sealed_set keeps.1 _ holds)
  | keyed asks _ gives _ ih =>
      obtain ⟨keeps, holds⟩ := Discipline.gives_twice True.intro sound sealed_sees asks gives
      exact ih (sealed_set keeps.1 _ holds)

theorem bind_failed {α β : Type} {first : Eval α} {behind : α → Eval β} {failure : Failure}
    (failed : first machine = .failed failure after) :
    (first >>= behind) machine = .failed failure after := by
  change Eval.bind first behind machine = _
  rw [Eval.bind, failed]

theorem requireKey_stands {asked : Value} {stored : Key} (stands : asked.toKey? = some stored) :
    requireKey asked machine = .done stored machine := by
  rw [requireKey, stands]
  rfl

theorem requireKey_refuses {asked : Value} (noKey : asked.toKey? = none) :
    requireKey asked machine = .failed (.misuse .index asked none) machine := by
  rw [requireKey, noKey]
  rfl

theorem fill_keyed {between : Machine} {key value : Expression} {asked given : Value} {stored : Key}
    (asks : Gives fuel scope machine key asked middle) (stands : asked.toKey? = some stored)
    (gives : Gives fuel scope middle value given between) :
    fillTable (apply fuel) fuel scope id position (.keyed key value :: rest) machine =
      fillTable (apply fuel) fuel scope id position rest (between.setTable id stored given) :=
  bind_done asks (bind_done (requireKey_stands stands) (bind_done gives (bind_done rfl rfl)))

theorem fill_refused {key value : Expression} {asked : Value}
    (asks : Gives fuel scope machine key asked after) (noKey : asked.toKey? = none) :
    fillTable (apply fuel) fuel scope id position (.keyed key value :: rest) machine =
      .failed (.misuse .index asked none) after :=
  bind_done asks (bind_failed (requireKey_refuses noKey))

/-- The fields behind some that are evaluated are filled in on the machine that those leave. -/
theorem fill_assigned (assigns : Assigns fuel scope id position machine before writes middle) :
    fillTable (apply fuel) fuel scope id position (before ++ rest) machine =
      fillTable (apply fuel) fuel scope id
        (position + before.countP Field.isPositional) rest middle := by
  induction assigns with
  | nil => rfl
  | positional gives _ ih =>
      refine (bind_done gives (bind_done rfl ih)).trans ?_
      rw [List.countP_cons_of_pos (by rfl), Nat.add_assoc, Nat.add_comm 1]
  | named gives _ ih =>
      refine (bind_done gives (bind_done rfl ih)).trans ?_
      rw [List.countP_cons_of_neg (by simp [Field.isPositional])]
  | keyed asks stands gives _ ih =>
      refine (fill_keyed asks stands gives).trans (ih.trans ?_)
      rw [List.countP_cons_of_neg (by simp [Field.isPositional])]

theorem requireKey_done {asked : Value} {stored : Key}
    (done : requireKey asked machine = .done stored after) :
    asked.toKey? = some stored ∧ machine = after := by
  cases stands : asked.toKey? with
  | none =>
      rw [requireKey_refuses stands] at done
      cases done
  | some key =>
      rw [requireKey_stands stands] at done
      cases done
      exact ⟨rfl, rfl⟩

/-- Fields that are filled in are evaluated in their order. -/
theorem fill_assigns
    (filled : fillTable (apply fuel) fuel scope id position fields machine = .done () after) :
    ∃ writes, Assigns fuel scope id position machine fields writes after := by
  induction fields generalizing position machine with
  | nil =>
      cases filled
      exact ⟨[], .nil ..⟩
  | cons field fields ih =>
      cases field with
      | positional value =>
          obtain ⟨given, between, gives, filled⟩ := done_bind filled
          obtain ⟨writes, others⟩ := ih filled
          exact ⟨_, .positional gives others⟩
      | named name value =>
          obtain ⟨given, between, gives, filled⟩ := done_bind filled
          obtain ⟨writes, others⟩ := ih filled
          exact ⟨_, .named gives others⟩
      | keyed key value =>
          obtain ⟨asked, middle, asks, filled⟩ := done_bind filled
          obtain ⟨stored, same, found, filled⟩ := done_bind filled
          obtain ⟨stands, rfl⟩ := requireKey_done found
          obtain ⟨given, between, gives, filled⟩ := done_bind filled
          obtain ⟨writes, others⟩ := ih filled
          exact ⟨_, .keyed asks stands gives others⟩

/-- The fields behind some that are evaluated are entered. -/
theorem assigns_visits (assigns : Assigns fuel scope id position machine before writes middle)
    (outer : List Scope) (rest : List Field) :
    Visits ⟨fuel, machine, scope :: outer, .fill id position (before ++ rest)⟩
      ⟨fuel, middle, scope :: outer,
        .fill id (position + before.countP Field.isPositional) rest⟩ := by
  induction assigns with
  | nil => exact .refl
  | positional gives _ ih =>
      rw [List.countP_cons_of_pos (by rfl), Nat.add_comm _ 1, ← Nat.add_assoc]
      exact enters_visits (.part (.afterPositional gives)) ih
  | named gives _ ih =>
      rw [List.countP_cons_of_neg (by simp [Field.isPositional])]
      exact enters_visits (.part (.afterNamed gives)) ih
  | keyed asks stands gives _ ih =>
      rw [List.countP_cons_of_neg (by simp [Field.isPositional])]
      exact enters_visits (.part (.afterKeyed asks stands gives)) ih

/-- Of a field whose key is refused, only the key is evaluated. -/
theorem refused_enters {key value : Expression} {asked : Value} {outer : List Scope}
    {inner : Activity} (asks : Gives fuel scope machine key asked after)
    (noKey : asked.toKey? = none)
    (enters : Enters ⟨fuel, machine, scope :: outer, .fill id position (.keyed key value :: rest)⟩
      inner) : inner = ⟨fuel, machine, scope :: outer, .evaluate key⟩ := by
  have unkeyed {other : Value} {last : Machine} {stored : Key}
      (asks' : Gives fuel scope machine key other last) (stands : other.toKey? = some stored) :
      False := by
    rw [Gives, asks] at asks'
    cases asks'
    rw [noKey] at stands
    cases stands
  cases enters with
  | part part =>
      cases part with
      | fieldKey => rfl
      | keyed asks' stands => exact (unkeyed asks' stands).elim
      | afterKeyed asks' stands => exact (unkeyed asks' stands).elim

end

/-! Constructors. -/

/-- What comes of a constructor: a new table that holds what the fields have written, a positional
one under its number among these. -/
structure Constructs (fuel : Nat) (scope : Scope) (machine : Machine) (fields : List Field)
    (writes : List (Key × Value)) (after : Machine) : Prop where
  assigns : Assigns fuel scope machine.tables.size 1 machine.newTable.2 fields writes after
  positions : ∀ (n : Nat) (value : Expression), fields[n]? = some (.positional value) →
    writes[n]?.map Prod.fst = some (.position ((fields.take n).countP Field.isPositional + 1))
  new : ¬ machine.Stores (.table machine.tables.size)
  written : Table.Written writes (after.table machine.tables.size)

/-- The constructor fails with the value of a key. The field with that key is reached on the machine
that the fields in front of it leave, and nothing is entered there but its key. -/
structure StopsAt (fuel : Nat) (scope : Scope) (machine : Machine) (before : List Field)
    (key value : Expression) (rest : List Field) (middle : Machine) (asked : Value)
    (after : Machine) : Prop where
  failed : evaluate (apply fuel) fuel scope (.table (before ++ .keyed key value :: rest)) machine =
    .failed (.misuse .index asked none) after
  reached : ∀ outer, Visits
    ⟨fuel, machine, scope :: outer, .evaluate (.table (before ++ .keyed key value :: rest))⟩
    ⟨fuel, middle, scope :: outer,
      .fill machine.tables.size (1 + before.countP Field.isPositional) (.keyed key value :: rest)⟩
  entered : ∀ outer inner, Enters
    ⟨fuel, middle, scope :: outer,
      .fill machine.tables.size (1 + before.countP Field.isPositional) (.keyed key value :: rest)⟩
    inner → inner = ⟨fuel, middle, scope :: outer, .evaluate key⟩

section

variable {fuel : Nat} {scope : Scope} {machine middle after : Machine} {fields : List Field}
  {writes : List (Key × Value)}

theorem assigns_constructs
    (unreferred : ∀ object, ¬ machine.Refers object (.table machine.tables.size))
    (assigns : Assigns fuel scope machine.tables.size 1 machine.newTable.2 fields writes after) :
    Constructs fuel scope machine fields writes after := by
  refine ⟨assigns, ?_, Nat.lt_irrefl _, ?_⟩
  · intro n value field
    rw [assigns_positions assigns field, Nat.add_comm]
  · have content := (assigns_sealed assigns (sealed_new unreferred)).demands.2
    rw [content]
    exact Table.setAll_written writes

theorem table_filled {value : Value} :
    Gives fuel scope machine (.table fields) value after ↔
      value = .table machine.tables.size ∧
        fillTable (apply fuel) fuel scope machine.tables.size 1 fields machine.newTable.2 =
          .done () after := by
  constructor
  · intro gives
    obtain ⟨⟨⟩, last, filled, done⟩ := done_bind gives
    cases done
    exact ⟨rfl, filled⟩
  · rintro ⟨rfl, filled⟩
    exact bind_done rfl (bind_done filled rfl)

theorem assigns_stops {before rest : List Field} {key value : Expression} {asked : Value}
    (assigns : Assigns fuel scope machine.tables.size 1 machine.newTable.2 before writes middle)
    (asks : Gives fuel scope middle key asked after) (noKey : asked.toKey? = none) :
    StopsAt fuel scope machine before key value rest middle asked after := by
  refine ⟨?_, ?_, ?_⟩
  · have filled : fillTable (apply fuel) fuel scope machine.tables.size 1
        (before ++ .keyed key value :: rest) machine.newTable.2 =
          .failed (.misuse .index asked none) after :=
      (fill_assigned assigns).trans (fill_refused asks noKey)
    exact bind_done rfl (bind_failed filled)
  · intro outer
    exact enters_visits (.part .fields) (assigns_visits assigns outer _)
  · intro outer inner
    exact refused_enters asks noKey

end

/-- A constructor gives a value just if its fields are evaluated one after the other, and then it is
a new table with what these have written: under each key what was written last, and the keys in the
order in which they came to be there. At a key that no value can have the constructor fails with
that key, and evaluates nothing behind it. -/
theorem constructor_writes {machine : Machine}
    (unreferred : ∀ object, ¬ machine.Refers object (.table machine.tables.size)) (fuel : Nat)
    (scope : Scope) (fields : List Field) :
    (∀ value after, Gives fuel scope machine (.table fields) value after ↔
      value = .table machine.tables.size ∧
        ∃ writes, Constructs fuel scope machine fields writes after) ∧
    ∀ before key value rest writes middle asked after,
      fields = before ++ .keyed key value :: rest →
      Assigns fuel scope machine.tables.size 1 machine.newTable.2 before writes middle →
      Gives fuel scope middle key asked after → asked.toKey? = none →
      StopsAt fuel scope machine before key value rest middle asked after := by
  constructor
  · intro value after
    constructor
    · intro gives
      obtain ⟨rfl, filled⟩ := table_filled.mp gives
      obtain ⟨writes, assigns⟩ := fill_assigns filled
      exact ⟨rfl, writes, assigns_constructs unreferred assigns⟩
    · rintro ⟨rfl, writes, constructs⟩
      have filled := @fill_assigned _ _ _ _ _ _ _ [] _ constructs.assigns
      rw [List.append_nil] at filled
      exact table_filled.mpr ⟨rfl, filled⟩
  · rintro before key value rest writes middle asked after rfl assigns asks noKey
    exact assigns_stops assigns asks noKey

/-- Fields of all kinds, some of which write to a key again. -/
def shuffled : List Field :=
  [.positional (.string "a"), .keyed (.number 2) (.string "b"), .positional (.string "c"),
    .keyed (.number 1) .nil, .named "n" (.boolean true), .keyed (.number 1) (.string "d")]

theorem constructor_writes_shuffled :
    (∀ object, ¬ ({} : Machine).Refers object (.table 0)) ∧
    ∃ after writes, Constructs 0 {} {} shuffled writes after ∧
      after.table 0 = ⟨[(.integer 2, .string "c"), (.name "n", .boolean true),
        (.integer 1, .string "d")]⟩ := by
  have unreferred : ∀ object, ¬ ({} : Machine).Refers object (.table 0) := by
    rintro object (found | member | _)
    · cases found
    · cases member
  have gives : Gives 0 {} {} (.table shuffled) (.table 0) _ := rfl
  obtain ⟨_, writes, constructs⟩ :=
    ((constructor_writes unreferred 0 {} shuffled).1 _ _).mp gives
  exact ⟨unreferred, _, writes, constructs, by decide +kernel⟩

/-! New tables in the course of texts. -/

/-- Programs that may do anything know what is stored. -/
def Discipline.stored : Discipline :=
  { Discipline.strict with lenient := True }

theorem strict_stored {machine : Machine} (sound : Discipline.strict.Sound machine) :
    Discipline.stored.Sound machine := by
  refine ⟨True.intro, sound.closed, sound.globals, ?_⟩
  intro id _
  cases machine.callable id <;> exact .inl True.intro

/-- Nothing refers to a table that is still to come, wherever a program is that runs after some
texts. -/
theorem executed_unreferred {verbosity fuel : Nat} {session : Session}
    (executed : Executed verbosity session) {program : Block} {activity : Activity}
    (visits : Visits ⟨fuel, session.machine, [{}], .executeBlock program⟩ activity)
    (object : Object) :
    ¬ activity.machine.Refers object (.table activity.machine.tables.size) := by
  have ready : Discipline.stored.Ready ⟨fuel, session.machine, [{}], .executeBlock program⟩ := by
    refine ⟨strict_stored (executed_sound executed), ?_, True.intro⟩
    exact Discipline.seesAll_cons Discipline.sees_empty nofun
  intro refers
  have stored : activity.machine.Stores object :=
    Classical.not_not.mp fun missing => Machine.missing_refers missing refers
  have sound := (Discipline.visits_ready True.intro ready visits).sound
  exact Nat.lt_irrefl _ (sound.closed object _ stored refers)

end LuaCore
