import LuaCore.Proofs.Accounting
import LuaCore.Proofs.Rerunning

/-!
Tracing is transparent: what a host asks of a session has the same answers whether or not statements
are traced, apart from the trace. The trace of a step tells of every statement that was executed in
it, in their order.
-/

namespace LuaCore

open Evaluation

/-! What a host asks of a session, and what it finds behind that. -/

inductive Step where
  | execute (source : String)
  | run (program : Block)
  | define (name : String) (native : Native)
  | apply (function : Value) (arguments : List Value)

/-- What a step ends with, if it runs anything, what it lets out, and how it leaves the session. -/
structure Answer where
  result : Option (Except RunError Value)
  printed : List String
  recorded : List Value
  trace : List TraceEntry
  globals : List (String × Value)
  steps : Nat
  depth : Nat
  counted : Option Nat

def Answer.untraced (answer : Answer) : Answer :=
  { answer with trace := [] }

namespace Event

def text? : Event → Option String
  | printed text => some text
  | _ => none

def value? : Event → Option Value
  | recorded value => some value
  | _ => none

end Event

namespace Session

/-- Takes a step, which ends with a result if it runs anything. -/
def act (fuel : Nat) (session : Session) : Step → Option (Option (Except RunError Value) × Session)
  | .execute source => (session.execute fuel source).map fun next => (some next.1, next.2)
  | .run program =>
      (session.run fuel program).map fun next => (some (next.1.mapError .failure), next.2)
  | .define name native => some (none, session.define name native)
  | .apply function arguments =>
      (session.apply fuel function arguments).map fun next =>
        (some (next.1.mapError .failure), next.2)

def answer (session : Session) (result : Option (Except RunError Value)) : Answer where
  result := result
  printed := session.drain.1.filterMap Event.text?
  recorded := session.drain.1.filterMap Event.value?
  trace := session.drain.1.filterMap Event.entry?
  globals := session.globals
  steps := session.machine.steps
  depth := session.machine.depth
  counted := session.counted

/-- Takes a step and takes away what it lets out. -/
def perform (fuel : Nat) (session : Session) (step : Step) : Option (Answer × Session) :=
  (session.act fuel step).map fun next => (next.2.answer next.1, next.2.drain.2)

def performAll (fuel : Nat) : Session → List Step → Option (List Answer × Session)
  | session, [] => some ([], session)
  | session, step :: rest =>
      (session.perform fuel step).bind fun next =>
        (performAll fuel next.2 rest).map fun last => (next.1 :: last.1, last.2)

/-- What goes on in a step, unless there is nothing to run. -/
def activity? (fuel : Nat) (session : Session) : Step → Option Activity
  | .execute source => match parse source with
      | .ok program => some ⟨fuel, session.machine, [{}], .executeBlock program⟩
      | .error _ => none
  | .run program => some ⟨fuel, session.machine, [{}], .executeBlock program⟩
  | .define _ _ => none
  | .apply function arguments => some ⟨fuel, session.machine, [], .apply function arguments⟩

end Session

/-! Machines that do not trace. -/

/-- The machine as it would be had it never traced. -/
def Machine.untraced (machine : Machine) : Machine :=
  { machine with
    verbosity := 0
    transcript := machine.transcript.filter fun event => event.entry?.isNone }

def Session.untraced (session : Session) : Session :=
  { session with machine := session.machine.untraced }

theorem untraced_emit (machine : Machine) {event : Event} (other : event.entry? = none) :
    (machine.emit event).untraced = machine.untraced.emit event := by
  simp [Machine.untraced, Machine.emit, other]

/-- What is seen in events that are no trace entries is there without these. -/
theorem other_events {α : Type} (view : Event → Option α)
    (apart : ∀ entry, view (.traced entry) = none) (events : List Event) :
    (events.filter fun event => event.entry?.isNone).filterMap view = events.filterMap view := by
  rw [List.filterMap_filter]
  apply List.filterMap_congr
  intro event _
  cases event with
  | traced entry => exact (apart entry).symm
  | printed | recorded => rfl

theorem no_entries (events : List Event) :
    (events.filter fun event => event.entry?.isNone).filterMap Event.entry? = [] := by
  simp

theorem untraced_begin (machine : Machine) (summary : String) :
    (machine.begin summary).untraced = machine.untraced.begin summary := by
  unfold Machine.begin
  by_cases verbose : 0 < machine.verbosity
  · simp [verbose, Machine.untraced, Machine.emit, Event.entry?]
  · simp [verbose, Machine.untraced]

theorem alike_refl {bodies : Block → Block → Prop} (same : ∀ body, bodies body body)
    (function : Callable) : Callable.Alike bodies function function := by
  cases function with
  | closure => exact .closure (same _)
  | native name native => exact .native name native

/-- A machine alongside the one that does not trace. -/
def Bond.untraced : Bond where
  machines machine other := other = machine.untraced
  failures failure other := other = failure
  bodies := Eq
  places _ := True
  failures_refl _ := rfl
  failures_leaving _ same := same ▸ rfl
  failures_misuse same := .inl same.symm
  agrees := by
    rintro machine _ rfl
    exact ⟨rfl, rfl, rfl, rfl, rfl⟩
  callable := by
    rintro machine _ id rfl
    exact alike_refl (fun _ => rfl) _
  writeGlobals _ same := same ▸ rfl
  writeCells _ same := same ▸ rfl
  newTable same := same ▸ rfl
  setTable _ _ same _ := same ▸ rfl
  newFunction := by
    rintro machine _ function function' rfl alike
    cases alike with
    | closure same =>
        cases same
        exact ⟨rfl, rfl⟩
    | native name native => exact ⟨rfl, rfl⟩
  atDepth _ same := same ▸ rfl
  address _ same := same ▸ rfl
  emit := by
    rintro machine _ event rfl other
    refine (untraced_emit machine ?_).symm
    cases event with
    | traced entry => exact absurd rfl (other entry)
    | printed | recorded => rfl

theorem untraced_uniform : Bond.untraced.Uniform where
  bodies := (and_iff_left True.intro).symm
  places _ _ := True.intro
  begin := by
    rintro machine _ summary rfl
    exact (untraced_begin machine summary).symm

/-- The outcome with another machine behind it. -/
def Outcome.onMachine {α : Type} (change : Machine → Machine) : Outcome α → Outcome α
  | done value machine => done value (change machine)
  | failed failure machine => failed failure (change machine)
  | exhausted => exhausted

theorem ends_untraced {α : Type} {outcome other : Outcome α}
    (ends : Bond.untraced.Ends outcome other) : other = outcome.onMachine Machine.untraced := by
  cases ends with
  | done value same =>
      cases same
      rfl
  | failed failures same =>
      cases failures
      cases same
      rfl
  | exhausted => rfl

theorem mirrors_untraced {α : Type} {body : Eval α} (mirrors : Bond.untraced.Mirrors body body)
    (machine : Machine) : body machine.untraced = (body machine).onMachine Machine.untraced :=
  ends_untraced (mirrors machine machine.untraced rfl)

/-! Sessions that do not trace. -/

section

variable (fuel : Nat) (session : Session)

/-- The session that a step ends on, had it never traced. -/
abbrev Session.behind {α : Type} (next : α × Session) : α × Session :=
  (next.1, next.2.untraced)

theorem run_untraced (program : Block) :
    session.untraced.run fuel program = (session.run fuel program).map Session.behind := by
  have mirrors : Bond.untraced.Mirrors (Evaluation.run fuel program) _ :=
    Bond.mirrors_run untraced_uniform fuel True.intro
  have same := mirrors_untraced mirrors session.machine
  unfold Session.run
  rw [Session.untraced, same]
  cases Evaluation.run fuel program session.machine <;> rfl

theorem apply_untraced (function : Value) (arguments : List Value) :
    session.untraced.apply fuel function arguments =
      (session.apply fuel function arguments).map Session.behind := by
  have mirrors := Bond.mirrors_calls untraced_uniform fuel function arguments
  have same := mirrors_untraced mirrors session.machine
  unfold Session.apply
  rw [Session.untraced, same]
  cases Evaluation.apply fuel function arguments session.machine <;> rfl

theorem execute_untraced (source : String) :
    session.untraced.execute fuel source = (session.execute fuel source).map Session.behind := by
  unfold Session.execute
  cases parse source with
  | error error => rfl
  | ok program => simp only [run_untraced, Option.map_map, Function.comp_def]

theorem act_untraced (step : Step) :
    session.untraced.act fuel step = (session.act fuel step).map Session.behind := by
  cases step with
  | execute source =>
      simp only [Session.act, execute_untraced, Option.map_map, Function.comp_def]
  | run program => simp only [Session.act, run_untraced, Option.map_map, Function.comp_def]
  | define name native => rfl
  | apply function arguments =>
      simp only [Session.act, apply_untraced, Option.map_map, Function.comp_def]

theorem answer_untraced (result : Option (Except RunError Value)) :
    session.untraced.answer result = (session.answer result).untraced := by
  have texts := other_events Event.text? (fun _ => rfl) session.drain.1
  have values := other_events Event.value? (fun _ => rfl) session.drain.1
  have none := no_entries session.drain.1
  simp only [Session.drain] at texts values none
  simp only [Session.answer, Answer.untraced, Session.drain, Session.untraced, Machine.untraced,
    Array.toList_filter, texts, values, none, Session.globals]

theorem perform_untraced (step : Step) : session.untraced.perform fuel step =
    (session.perform fuel step).map fun next => (next.1.untraced, next.2.untraced) := by
  have drained (next : Session) : next.untraced.drain.2 = next.drain.2.untraced := by
    simp [Session.drain, Session.untraced, Machine.untraced]
  simp only [Session.perform, act_untraced, Option.map_map, Function.comp_def, answer_untraced,
    drained]

theorem performAll_untraced (steps : List Step) : session.untraced.performAll fuel steps =
    (session.performAll fuel steps).map fun last =>
      (last.1.map Answer.untraced, last.2.untraced) := by
  induction steps generalizing session with
  | nil => rfl
  | cons step rest ih =>
      simp only [Session.performAll, perform_untraced]
      cases session.perform fuel step with
      | none => rfl
      | some next =>
          simp only [Option.map_some, Option.bind_some, ih, Option.map_map, Function.comp_def,
            List.map_cons]

end

/-! The trace of a step. -/

/-- What stands in front of an entry that is not indented. -/
def TraceEntry.margin (entry : TraceEntry) : String :=
  TraceEntry.render ⟨entry.number, 0, ""⟩

/-- The entry is that of a statement, which gets the number behind those of all statements before
it. It is shown behind two blanks for each function that is active. -/
structure Recounts (first inner : Activity) (entry : TraceEntry) : Prop where
  number : entry.number = inner.machine.steps + 1
  shown : ∃ active statement, Running first active inner ∧ inner.task = .execute statement ∧
    entry.render = entry.margin ++ String.ofList (List.replicate (2 * active.length) ' ') ++
      statement.summary

/-- The trace has one entry for each statement that is executed in the course of the activity, in
their order. -/
def Session.Traces (session : Session) (first : Activity) (trace : List TraceEntry) : Prop :=
  ∃ executed, Executions first executed ∧ executed.Pairwise Before ∧
    trace.map TraceEntry.number = List.range' (session.machine.steps + 1) executed.length ∧
    List.Forall₂ (Recounts first) executed trace

/-- Nothing is going on in the session, and nothing is left to be told. -/
structure Session.Idle (verbosity : Nat) (session : Session) : Prop where
  depth : session.machine.depth = 0
  trace : session.machine.trace = []
  verbosity : session.machine.verbosity = verbosity

theorem render_margin (entry : TraceEntry) : entry.render =
    entry.margin ++ String.ofList (List.replicate (2 * entry.depth) ' ') ++ entry.summary := by
  simp only [TraceEntry.margin, TraceEntry.render, Nat.mul_zero, List.replicate_zero,
    String.ofList_nil, String.append_empty, String.append_assoc]

theorem entry_recounts {first inner : Activity} (level : first.machine.depth = 0)
    (visits : Visits first inner) (execution : inner.IsExecution) :
    ∃ entry, inner.entry? = some entry ∧ Recounts first inner entry := by
  obtain ⟨active, running⟩ := visits_running visits
  have depth := running_depth running
  rw [level, Nat.zero_add] at depth
  obtain ⟨fuel, machine, scopes, task⟩ := inner
  obtain ⟨statement, rfl⟩ := execution
  refine ⟨_, rfl, rfl, active, statement, running, rfl, ?_⟩
  rw [← depth]
  exact render_margin _

theorem entries_recount {first : Activity} {executed : List Activity}
    (recounts : ∀ inner ∈ executed, ∃ entry,
      inner.entry? = some entry ∧ Recounts first inner entry) :
    List.Forall₂ (Recounts first) executed (executed.filterMap Activity.entry?) := by
  induction executed with
  | nil => exact .nil
  | cons inner rest ih =>
      obtain ⟨⟨entry, same, told⟩, others⟩ := List.forall_mem_cons.mp recounts
      rw [List.filterMap_cons_some same]
      exact .cons told (ih others)

theorem recounts_numbers {first : Activity} {executed : List Activity} {trace : List TraceEntry}
    (recounts : List.Forall₂ (Recounts first) executed trace) :
    trace.map TraceEntry.number = executed.map fun inner => 1 + inner.machine.steps := by
  induction recounts with
  | nil => rfl
  | cons told _ ih => rw [List.map_cons, List.map_cons, ih, told.number, Nat.add_comm]

/-- An activity that ends traces the statements executed in it, and nothing else. -/
theorem activity_traces {session : Session} {first : Activity} {after : Machine}
    (starts : first.machine = session.machine) (ends : first.machine? = some after)
    (depth : session.machine.depth = 0) :
    after.verbosity = session.machine.verbosity ∧ ∃ trace,
      after.trace =
        session.machine.trace ++ (if 0 < session.machine.verbosity then trace else []) ∧
      session.Traces first trace := by
  obtain ⟨executed, executions, ordered, numbered⟩ := executions_numbered ends
  have recounts : List.Forall₂ (Recounts first) executed (executed.filterMap Activity.entry?) := by
    apply entries_recount
    intro inner member
    obtain ⟨visits, execution⟩ := (executions.exact inner).mp member
    exact entry_recounts (starts ▸ depth) visits execution
  rw [← starts]
  refine ⟨numbered.verbosity, _, numbered.trace, executed, executions, ordered, ?_, recounts⟩
  calc (executed.filterMap Activity.entry?).map TraceEntry.number
      = (executed.map fun inner => inner.machine.steps).map (1 + ·) := by
        rw [recounts_numbers recounts, List.map_map]
        rfl
    _ = List.range' (session.machine.steps + 1) executed.length := by
        rw [numbered.numbers, List.map_add_range', starts, Nat.add_comm]

section

variable {fuel verbosity : Nat} {session next : Session}

theorem run_machine (program : Block) (machine : Machine) :
    (⟨fuel, machine, [{}], .executeBlock program⟩ : Activity).machine? =
      (Evaluation.run fuel program machine).machine? := by
  change (executeBlock (Evaluation.apply fuel) fuel {} program machine).machine? =
    (Eval.bind (executeBlock (Evaluation.apply fuel) fuel {} program) _ machine).machine?
  unfold Eval.bind
  cases executeBlock (Evaluation.apply fuel) fuel {} program machine <;> rfl

/-- A run ends on the machine of its activity. -/
theorem program_ends {program : Block} {answer : Except Failure Value}
    (ran : session.run fuel program = some (answer, next)) :
    (⟨fuel, session.machine, [{}], .executeBlock program⟩ : Activity).machine? =
      some next.machine := by
  rw [run_machine]
  rcases (run_cases ran).2 with ⟨value, _, ended⟩ | ⟨failure, _, ended⟩ <;> exact congrArg _ ended

/-- A step ends on the machine of what goes on in it. Otherwise nothing is counted or traced. -/
theorem act_ends {step : Step} {result : Option (Except RunError Value)}
    (acts : session.act fuel step = some (result, next)) :
    match session.activity? fuel step with
    | some first => first.machine = session.machine ∧ first.machine? = some next.machine
    | none => Silent session.machine next.machine ∧
        next.machine.depth = session.machine.depth := by
  cases step with
  | execute source =>
      obtain ⟨⟨answer, last⟩, ran, same⟩ := Option.map_eq_some_iff.mp acts
      cases same
      simp only [Session.activity?]
      cases parsed : parse source with
      | ok program =>
          obtain ⟨answer, ran⟩ := execute_parsed parsed ran
          exact ⟨rfl, program_ends ran⟩
      | error error =>
          cases execute_refused parsed ran
          exact ⟨rfl, rfl⟩
  | run program =>
      obtain ⟨⟨answer, last⟩, ran, same⟩ := Option.map_eq_some_iff.mp acts
      cases same
      exact ⟨rfl, program_ends ran⟩
  | define name native =>
      cases acts
      exact ⟨rfl, rfl⟩
  | apply function arguments =>
      obtain ⟨⟨answer, last⟩, ran, same⟩ := Option.map_eq_some_iff.mp acts
      cases same
      exact ⟨rfl, (apply_ends ran).1⟩

/-- What goes on in a step of an idle session is traced, if anything is. -/
theorem act_traces {step : Step} {result : Option (Except RunError Value)}
    (idle : session.Idle verbosity) (acts : session.act fuel step = some (result, next)) :
    next.machine.depth = 0 ∧ next.machine.verbosity = verbosity ∧ ∃ trace,
      next.machine.trace = (if 0 < verbosity then trace else []) ∧
      match session.activity? fuel step with
      | some first => session.Traces first trace
      | none => trace = [] := by
  have ends := act_ends acts
  cases activity : session.activity? fuel step with
  | some first =>
      rw [activity] at ends
      obtain ⟨starts, ends⟩ := ends
      obtain ⟨same, trace, told, traces⟩ := activity_traces starts ends idle.depth
      refine ⟨?_, same.trans idle.verbosity, trace, ?_, traces⟩
      · rw [(ends_level ends).depth, starts, idle.depth]
      · rw [told, idle.trace, idle.verbosity, List.nil_append]
  | none =>
      rw [activity] at ends
      obtain ⟨silent, depth⟩ := ends
      obtain ⟨_, verbosity, trace⟩ := silent_iff.mp silent
      refine ⟨depth.trans idle.depth, verbosity.trans idle.verbosity, [], ?_, rfl⟩
      rw [trace, idle.trace, ite_self]

theorem perform_idle {step : Step} {answer : Answer} (idle : session.Idle verbosity)
    (performs : session.perform fuel step = some (answer, next)) : next.Idle verbosity := by
  obtain ⟨⟨result, last⟩, acts, same⟩ := Option.map_eq_some_iff.mp performs
  cases same
  obtain ⟨depth, same, _⟩ := act_traces idle acts
  exact ⟨depth, rfl, same⟩

theorem performAll_idle {steps : List Step} {answers : List Answer} (idle : session.Idle verbosity)
    (performs : session.performAll fuel steps = some (answers, next)) : next.Idle verbosity := by
  induction steps generalizing session answers with
  | nil =>
      cases performs
      exact idle
  | cons step rest ih =>
      obtain ⟨⟨answer, middle⟩, first, behind⟩ := Option.bind_eq_some_iff.mp performs
      obtain ⟨⟨others, last⟩, performed, same⟩ := Option.map_eq_some_iff.mp behind
      cases same
      exact ih (perform_idle idle first) performed

end

/-- A session that traces has the answers of one that does not, whatever it is asked for, and ends
as that one does, apart from the trace. In each step it traces just the statements that are executed
in it, in their order, with numbers that go on behind the steps of the session, whatever the step
ends with. Without verbosity nothing is traced. -/
theorem tracing_transparent (fuel verbosity : Nat) (steps : List Step) :
    (Session.bare 0).performAll fuel steps =
      ((Session.bare verbosity).performAll fuel steps).map (fun last =>
        (last.1.map Answer.untraced, last.2.untraced)) ∧
    ∀ answers session, (Session.bare verbosity).performAll fuel steps = some (answers, session) →
      ∀ step answer next, session.perform fuel step = some (answer, next) →
        (verbosity = 0 → answer.trace = []) ∧
        (session.activity? fuel step = none → answer.trace = []) ∧
        ∀ first, session.activity? fuel step = some first → 0 < verbosity →
          session.Traces first answer.trace := by
  refine ⟨performAll_untraced fuel (Session.bare verbosity) steps, ?_⟩
  intro answers session performs step answer next performed
  have idle : session.Idle verbosity := performAll_idle ⟨rfl, rfl, rfl⟩ performs
  obtain ⟨⟨result, last⟩, acts, same⟩ := Option.map_eq_some_iff.mp performed
  cases same
  obtain ⟨_, _, trace, told, traces⟩ := act_traces idle acts
  change (_ → last.machine.trace = []) ∧ (_ → last.machine.trace = []) ∧
    ∀ first, _ → _ → session.Traces first last.machine.trace
  rw [told]
  refine ⟨?_, ?_, ?_⟩
  · rintro rfl
    rfl
  · intro none
    simp only [none] at traces
    rw [traces, ite_self]
  · intro first activity verbose
    simp only [activity] at traces
    rw [if_pos verbose]
    exact traces

/-- The statement that fails inside of a function is traced, and the one behind it is not. -/
theorem tracing_transparent_failing :
    let program : Block := [.function "f" [] [.evaluate (.call .nil []), .returns .nil],
      .evaluate (.call (.name "f") [])]
    let step : Step := .run program
    ∃ answers session answer next first,
      (Session.bare 1).performAll 2 [step] = some (answers, session) ∧
      session.perform 2 step = some (answer, next) ∧
      session.activity? 2 step = some first ∧ session.machine.steps = 3 ∧
      answer.trace = [⟨4, 0, "function f()"⟩, ⟨5, 0, "f(0 args)"⟩, ⟨6, 1, "expression"⟩] ∧
      (answer.result = some (.error (.failure (.misuse .call .nil (some "f"))))) ∧
      session.Traces first answer.trace := by
  intro program step
  have performs : (Session.bare 1).performAll 2 [step] = some (_, _) := rfl
  refine ⟨_, _, _, _, _, performs, rfl, rfl, rfl, rfl, rfl, ?_⟩
  obtain ⟨_, _, traces⟩ := (tracing_transparent 2 1 [step]).2 _ _ performs step _ _ rfl
  exact traces _ rfl Nat.one_pos

end LuaCore
