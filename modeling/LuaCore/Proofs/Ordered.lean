import LuaCore.Proofs.Extent
import LuaCore.Proofs.Normal
import LuaCore.Proofs.Printing

/-!
Tables in order, on every host whose natives write tables under the keys of values only. The keys
are names and whole numbers. A whole number is what some finite number is worth, unless a
constructor of a table has counted so far: constructors count on beyond 2^53, where numbers leave
gaps, so that the entry behind 2^53 fields has a key that no number stands for.
-/

namespace LuaCore

open Evaluation

/-- A constructor of a table in one of the texts has that many fields with their keys by
position. -/
def CountedTo (sources : Set String) (place : Nat) : Prop :=
  ∃ source ∈ sources, ∃ program, parse source = .ok program ∧ place ≤ Block.width program

theorem countedTo_closed {sources : Set String} (place width : Nat) (less : place ≤ width)
    (counted : CountedTo sources width) : CountedTo sources place := by
  obtain ⟨source, member, program, parsed, within⟩ := counted
  exact ⟨source, member, program, parsed, Nat.le_trans less within⟩

/-! What natives may do. -/

/-- How natives get on from a machine. Tables are made, and written under keys that values stand
for; functions are called, and made of what is in the texts; and all but tables and functions may
change in any way. -/
inductive Machine.Handled (sources : Set String) (call : Caller) (machine : Machine) :
    Machine → Prop where
  | start : Handled sources call machine machine
  | apart {after next : Machine} (before : Handled sources call machine after)
      (tables : after.tables = next.tables) (functions : after.functions = next.functions) :
      Handled sources call machine next
  | newTable {after : Machine} (before : Handled sources call machine after) :
      Handled sources call machine after.newTable.2
  | setTable {after : Machine} (before : Handled sources call machine after) (id : Nat)
      {asked : Value} {key : Key} (stands : asked.toKey? = some key) (value : Value) :
      Handled sources call machine (after.setTable id key value)
  | newFunction {after : Machine} (before : Handled sources call machine after)
      {function : Callable} (body : ∀ closure, function = .closure closure →
        CountedTo sources (Block.width closure.body)) :
      Handled sources call machine (after.newFunction function).2
  | called {after next : Machine} (before : Handled sources call machine after)
      (function : Value) (arguments : List Value)
      (ended : (call function arguments after).machine? = some next) :
      Handled sources call machine next

/-- Whatever the computation ends with, it has done no more than natives may. -/
def Eval.Handles (sources : Set String) (call : Caller) {α : Type} (body : Eval α) : Prop :=
  ∀ machine next, (body machine).machine? = some next → machine.Handled sources call next

/-- The natives of a host write tables under keys of values only. -/
def Host.Tidy (sources : Set String) (host : Host) : Prop :=
  ∀ id native call arguments, Eval.Handles sources call (host id native call arguments)

section

variable {sources : Set String} {call : Caller} {α β : Type}

theorem handled_trans {machine middle next : Machine}
    (first : machine.Handled sources call middle) (second : middle.Handled sources call next) :
    machine.Handled sources call next := by
  induction second with
  | start => exact first
  | apart _ tables functions ih => exact .apart ih tables functions
  | newTable _ ih => exact .newTable ih
  | setTable _ id stands value ih => exact .setTable ih id stands value
  | newFunction _ body ih => exact .newFunction ih body
  | called _ function arguments ended ih => exact .called ih function arguments ended

theorem handles_pure (value : α) : Eval.Handles sources call (Eval.pure value) := by
  rintro machine _ ⟨⟩
  exact .start

theorem handles_fail (failure : Failure) :
    Eval.Handles sources call (Eval.fail failure : Eval α) := by
  rintro machine _ ⟨⟩
  exact .start

/-- Nothing is done to tables and functions. -/
theorem handles_update {change : Machine → α × Machine}
    (quiet : ∀ machine : Machine, machine.Quiet (change machine).2) :
    Eval.Handles sources call (Eval.update change) := by
  rintro machine _ ⟨⟩
  exact .apart .start (quiet machine).tables (quiet machine).functions

theorem handles_modify {change : Machine → Machine}
    (quiet : ∀ machine : Machine, machine.Quiet (change machine)) :
    Eval.Handles sources call (Eval.modify change) := by
  rintro machine _ ⟨⟩
  exact .apart .start (quiet machine).tables (quiet machine).functions

theorem handles_setTable (id : Nat) {asked : Value} {key : Key} (stands : asked.toKey? = some key)
    (value : Value) :
    Eval.Handles sources call (Eval.modify fun machine => machine.setTable id key value) := by
  rintro machine _ ⟨⟩
  exact .setTable .start id stands value

theorem handles_call (function : Value) (arguments : List Value) :
    Eval.Handles sources call (call function arguments) :=
  fun _ _ ended => .called .start function arguments ended

theorem handles_bind {first : Eval α} {rest : α → Eval β} (handles : first.Handles sources call)
    (goes : ∀ value, Eval.Handles sources call (rest value)) :
    Eval.Handles sources call (Eval.bind first rest) := by
  intro machine next ended
  have front := handles machine
  unfold Eval.bind at ended
  cases ran : first machine with
  | done value after =>
      rw [ran] at ended front
      exact handled_trans (front after rfl) (goes value after next ended)
  | failed failure after =>
      rw [ran] at ended front
      exact front next ended
  | exhausted =>
      rw [ran] at ended
      cases ended

theorem handles_recover {body : Eval α} (handle : Failure → α)
    (handles : body.Handles sources call) :
    Eval.Handles sources call (Eval.recover body handle) := by
  intro machine next ended
  apply handles machine next
  unfold Eval.recover at ended
  cases ran : body machine with
  | failed failure after =>
      rw [ran] at ended
      dsimp only at ended
      by_cases misuse : failure.isMisuse
      · rw [if_pos misuse] at ended
        exact ended
      · rw [if_neg misuse] at ended
        exact ended
  | done | exhausted =>
      rw [ran] at ended
      exact ended

/-- The natives that there are write no tables, but for one that takes the key of a value. -/
theorem own_tidy (sources : Set String) : Host.own.Tidy sources := by
  intro id native call arguments
  change Eval.Handles sources call (native.run call arguments)
  cases native with
  | print =>
      exact handles_bind (handles_modify (Machine.printedLine_quiet arguments))
        fun _ => handles_pure _
  | type | idle => exact handles_pure _
  | tostring =>
      exact handles_bind (handles_update (Machine.plain_quiet _)) fun _ => handles_pure _
  | record =>
      exact handles_bind (handles_modify (Machine.recordAll_quiet arguments))
        fun _ => handles_pure _
  | fail => exact handles_fail _
  | twice =>
      rcases arguments with _ | ⟨function, _ | ⟨value, rest⟩⟩
      · exact handles_fail _
      · exact handles_fail _
      · exact handles_bind (handles_call function [value]) fun once => handles_call function [once]
  | setKey =>
      simp only [Native.run]
      split
      · next id key value _ =>
          cases stands : key.toKey? with
          | some stored =>
              exact handles_bind (handles_setTable id stands value) fun _ => handles_pure _
          | none => exact handles_fail _
      · exact handles_fail _
  | sum =>
      simp only [Native.run]
      cases Native.total? 0 arguments with
      | some result => exact handles_pure _
      | none => exact handles_fail _
  | attempt =>
      cases arguments with
      | nil => exact handles_fail _
      | cons function rest => exact handles_recover _ (handles_call function rest)

end

/-! Tables stay normal. -/

section

variable {sources : Set String} {host : Host}

/-- What natives may do keeps tables normal, as far as the calls do that they make. -/
theorem handled_normal {call : Caller} {machine next : Machine}
    (calls : (Bond.normal (CountedTo sources)).CallsMirror call call)
    (normal : machine.Normal (CountedTo sources)) (handled : machine.Handled sources call next) :
    next.Normal (CountedTo sources) := by
  induction handled with
  | start => exact normal
  | @apart after next _ tables functions ih =>
      refine ⟨fun id => ?_, fun id closure found => ?_⟩
      · rw [Machine.table, ← tables]
        exact ih.tables id
      · rw [Machine.callable, ← functions] at found
        exact ih.bodies id closure found
  | newTable _ ih => exact Machine.normal_newTable ih
  | setTable _ id stands value ih => exact Machine.normal_setTable id value (.inl ⟨_, stands⟩) ih
  | newFunction _ body ih => exact Machine.normal_newFunction ih body
  | called _ function arguments ended ih =>
      exact normal_mirrors.mp (calls function arguments) _ _ ih ended

theorem admits_tidy (tidy : host.Tidy sources) :
    (Bond.normal (CountedTo sources)).Admits host := by
  intro id native call arguments calls
  apply normal_mirrors.mpr
  intro machine next normal ended
  exact handled_normal calls normal (tidy id native call arguments machine next ended)

theorem execute_normal {session next : Session} {fuel : Nat} {source : String}
    {answer : Except RunError Value} (tidy : host.Tidy sources) (given : source ∈ sources)
    (normal : session.machine.Normal (CountedTo sources))
    (ran : session.executeWith host fuel source = some (answer, next)) :
    next.machine.Normal (CountedTo sources) := by
  unfold Session.executeWith at ran
  cases parsed : parse source with
  | error error =>
      rw [parsed] at ran
      cases ran
      exact normal
  | ok program =>
      have fits : CountedTo sources (Block.width program) :=
        ⟨source, given, program, parsed, Nat.le_refl _⟩
      have mirrors := Bond.mirrors_runWith (normal_uniform countedTo_closed) (admits_tidy tidy)
        fuel fits
      have keeps := normal_mirrors.mp mirrors session.machine
      rw [parsed] at ran
      dsimp only at ran
      cases ended : runWith host fuel program session.machine with
      | done | failed =>
          rw [ended] at ran keeps
          cases ran
          exact keeps _ normal rfl
      | exhausted =>
          rw [ended] at ran
          cases ran

end

/-! Sessions that are fed with texts. -/

/-- The sessions that come of a new one when texts are executed, whatever these end with, and
natives are defined in between. What the natives do may be another thing in each run. -/
inductive Session.Fed (sources : Set String) : Session → Prop where
  | bare (verbosity : Nat) : Fed sources (bare verbosity)
  | define {session : Session} (name : String) (native : Native) (before : Fed sources session) :
      Fed sources (session.define name native)
  | execute {session next : Session} {host : Host} {fuel : Nat} {source : String}
      {answer : Except RunError Value} (before : Fed sources session) (tidy : host.Tidy sources)
      (given : source ∈ sources)
      (ran : session.executeWith host fuel source = some (answer, next)) : Fed sources next

/-- Texts may be executed with the natives as they are. -/
theorem fed_execute {sources : Set String} {session next : Session} {fuel : Nat} {source : String}
    {answer : Except RunError Value} (fed : session.Fed sources) (given : source ∈ sources)
    (ran : session.execute fuel source = some (answer, next)) : next.Fed sources :=
  .execute fed (own_tidy sources) given ((Session.execute_own ..).trans ran)

theorem fed_normal {sources : Set String} {session : Session} (fed : session.Fed sources) :
    session.machine.Normal (CountedTo sources) := by
  induction fed with
  | bare verbosity =>
      refine ⟨fun id => Table.normal_empty, fun id closure found => ?_⟩
      cases found
  | define name native _ ih =>
      have made := Machine.normal_newNative name native ih
      exact ⟨made.tables, made.bodies⟩
  | execute _ tidy given ran ih => exact execute_normal tidy given ih ran

/-! A constructor that counts far. -/

/-- Fields of nil, and one more behind them. -/
def crowd (nils : Nat) : List Field :=
  List.replicate nils (.positional .nil) ++ [.positional (.boolean true)]

theorem crowd_wellFormed (nils : Nat) : Field.AllWellFormed (crowd nils) := by
  induction nils with
  | zero => exact ⟨trivial, trivial⟩
  | succ nils ih => exact ⟨trivial, ih⟩

theorem setTable_vacant {machine : Machine} {id : Nat} (vacant : machine.table id = {})
    (key : Key) : machine.setTable id key .nil = machine := by
  have same : machine.tables.modify id (fun table => table.set key .nil) = machine.tables := by
    apply Array.ext Array.size_modify
    intro index _ within
    rw [Array.getElem_modify]
    split
    · next here =>
        subst here
        rw [Machine.table, Array.getD_eq_getD_getElem?, Array.getElem?_eq_getElem within] at vacant
        rw [show machine.tables[id] = {} from vacant]
        rfl
    · rfl
  rw [Machine.setTable, same]

-- What nils write is nothing, so that the machine stays as it is and the position alone advances.
theorem fill_crowd (call : Caller) (fuel : Nat) (scope : Scope) {machine : Machine} {id : Nat}
    (vacant : machine.table id = {}) (nils position : Nat) :
    fillTable call fuel scope id position (crowd nils) machine =
      .done () (machine.setTable id (.position (position + nils)) (.boolean true)) := by
  induction nils generalizing position with
  | zero => rfl
  | succ nils ih =>
      rw [crowd, List.replicate_succ, List.cons_append, fillTable]
      change fillTable call fuel scope id (position + 1) (crowd nils)
        (machine.setTable id (.position position) .nil) = _
      rw [setTable_vacant vacant, ih, Nat.add_assoc, Nat.add_comm 1]

/-- The text of a program that returns a table of so many nils with one more field behind them. -/
def crowdedText (nils : Nat) : String :=
  print [.returns (.table (crowd nils))]

theorem crowded_execute (nils : Nat) : ∃ session,
    (Session.bare 0).execute 0 (crowdedText nils) = some (.ok (.table 0), session) ∧
      session.machine.table 0 = ⟨[(.position (nils + 1), .boolean true)]⟩ := by
  let program : Block := [.returns (.table (crowd nils))]
  have parsed : parse (crowdedText nils) = .ok program :=
    parse_print ⟨crowd_wellFormed nils, fun _ => rfl, trivial⟩
  let begun := (Session.bare 0).machine.begin (Statement.returns (.table (crowd nils))).summary
  let after := begun.newTable.2.setTable 0 (.position (nils + 1)) (.boolean true)
  have filled : fillTable (apply 0) 0 {} 0 1 (crowd nils) begun.newTable.2 = .done () after := by
    rw [fill_crowd (apply 0) 0 {} rfl, Nat.add_comm]
  have ran : Evaluation.run 0 program (Session.bare 0).machine = .done (.table 0) after :=
    run_returns (bind_done rfl (bind_done filled rfl))
  refine ⟨(Session.bare 0).count after, ?_, rfl⟩
  rw [Session.execute, parsed]
  change ((Session.bare 0).run 0 program).map _ = _
  rw [Session.run, ran]
  rfl

/-! Tables in order. -/

/-- A whole number that is the key of a value is what a finite number is worth. -/
theorem key_whole {value : Value} {n : Int} (stands : value.toKey? = some (.integer n)) :
    ∃ x, Double.isFinite x ∧ Double.toInt? x = some n := by
  cases value with
  | number x =>
      have key : Value.numberKey x = .integer n := Option.some.inj stands
      unfold Value.numberKey at key
      cases whole : Double.toInt? x with
      | some m =>
          rw [whole] at key
          cases key
          exact ⟨x, (Double.toInt_exact whole).1, whole⟩
      | none =>
          rw [whole] at key
          cases key
  | _ => cases stands

/-- The whole numbers among the keys of a normal table are what finite numbers are worth, and beyond
2^53 positions as well. -/
theorem normal_whole {places : Nat → Prop} {table : Table} (normal : table.Normal places) {n : Int}
    (member : .integer n ∈ table.keys) :
    (∃ x, Double.isFinite x ∧ Double.toInt? x = some n) ∨
      ∃ place, 2 ^ 53 < place ∧ places place ∧ n = place := by
  rcases normal.within _ member with ⟨value, stands⟩ | ⟨place, counted, same⟩
  · exact .inl (key_whole stands)
  · cases same
    by_cases small : place ≤ 2 ^ 53
    · obtain ⟨x, whole⟩ := Double.whole_natural small
      exact .inl ⟨x, (Double.toInt_exact whole).1, whole⟩
    · exact .inr ⟨place, Nat.lt_of_not_le small, counted, rfl⟩

/-- What is stored in a table where those texts have been executed. -/
structure Table.InOrder (sources : Set String) (table : Table) : Prop where
  nonnil : ∀ entry ∈ table.entries, entry.2 ≠ .nil
  distinct : table.keys.Nodup
  kinds : ∀ key ∈ table.keys, (∃ text, key = .name text) ∨ ∃ n, key = .integer n
  /-- A whole number is what a finite number is worth, or else the place, beyond 2^53, of a field in
  a constructor that has so many of them. -/
  whole : ∀ n, .integer n ∈ table.keys →
    (∃ x, Double.isFinite x ∧ Double.toInt? x = some n) ∨
      ∃ place, 2 ^ 53 < place ∧ CountedTo sources place ∧ n = place
  /-- Only texts of more than 2^53 characters have such a constructor. -/
  short : (∀ source ∈ sources, source.length ≤ 2 ^ 53) → ∀ n, .integer n ∈ table.keys →
    ∃ x, Double.isFinite x ∧ Double.toInt? x = some n
  reads : ∀ (value : Value) key, value.toKey? = some key →
    (table.get key = .nil ↔ key ∉ table.keys)
  size : table.size = {key | table.get key ≠ .nil}.ncard

/-- All tables are in order, whatever texts have been executed before and whatever these have ended
with, on hosts that write tables under keys of values only. -/
theorem tables_inOrder {sources : Set String} {session : Session} (fed : session.Fed sources)
    (id : Nat) : (session.machine.table id).InOrder sources := by
  have normal := (fed_normal fed).tables id
  have whole (n : Int) (member : .integer n ∈ (session.machine.table id).keys) :=
    normal_whole normal member
  refine ⟨normal.nonnil, normal.distinct, ?_, whole, ?_, ?_, Table.size_normal normal⟩
  · intro key _
    cases key with
    | name text => exact .inl ⟨text, rfl⟩
    | integer n => exact .inr ⟨n, rfl⟩
  · intro short n member
    rcases whole n member with worth | ⟨place, beyond, ⟨source, given, program, parsed, within⟩, _⟩
    · exact worth
    · have long := Nat.le_trans within (parse_width parsed)
      exact absurd (Nat.le_trans long (short source given)) (Nat.not_le.mpr beyond)
  · exact fun _ key _ => Table.get_nil normal key

/-- A position with nil is left out, and counts nevertheless. What a native has written is there
after a failure as well. -/
theorem tables_inOrder_failing :
    let source := "t={t,true}set(t,'k',t)t()"
    let before := (Session.bare 0).define "set" .setKey
    ∃ session failure, before.execute 2 source = some (.error failure, session) ∧
      session.machine.table 0 = ⟨[(.position 2, .boolean true), (.name "k", .table 0)]⟩ ∧
      session.Fed {source} ∧ (session.machine.table 0).InOrder {source} := by
  intro source before
  have parsed : parse source = .ok [.assign (.name "t")
      (.table [.positional (.name "t"), .positional (.boolean true)]),
      .evaluate (.call (.name "set") [.name "t", .string "k", .name "t"]),
      .evaluate (.call (.name "t") [])] := by cbv
  obtain ⟨session, failure, ran, stored⟩ : ∃ session failure,
      before.execute 2 source = some (.error failure, session) ∧
        session.machine.table 0 = ⟨[(.position 2, .boolean true), (.name "k", .table 0)]⟩ := by
    rw [Session.execute, parsed]
    exact ⟨_, _, rfl, rfl⟩
  have fed : session.Fed {source} := fed_execute (.define "set" .setKey (.bare 0)) rfl ran
  exact ⟨session, failure, ran, stored, fed, tables_inOrder fed 0⟩

/-- Behind 2^53 other fields, a field has its entry under a number that no double is worth, so that
no value reads it. -/
theorem tables_beyond :
    ∃ session,
      (Session.bare 0).execute 0 (crowdedText (2 ^ 53)) = some (.ok (.table 0), session) ∧
      session.Fed {crowdedText (2 ^ 53)} ∧
      session.machine.table 0 = ⟨[(.integer (2 ^ 53 + 1), .boolean true)]⟩ ∧
      ¬ (∃ x, Double.isFinite x ∧ Double.toInt? x = some (2 ^ 53 + 1)) ∧
      ∀ value : Value, value.toKey? ≠ some (.integer (2 ^ 53 + 1)) := by
  obtain ⟨session, ran, stored⟩ := crowded_execute (2 ^ 53)
  have fed : session.Fed {crowdedText (2 ^ 53)} := fed_execute (.bare 0) rfl ran
  have worthless : ¬ ∃ x, Double.isFinite x ∧ Double.toInt? x = some (2 ^ 53 + 1) := by
    rintro ⟨x, _, worth⟩
    exact absurd (Double.odd_small worth (by decide)) (by decide)
  exact ⟨session, ran, fed, stored, worthless, fun value stands => worthless (key_whole stands)⟩

end LuaCore
