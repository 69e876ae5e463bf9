import LuaCore.Proofs.Prompting
import LuaCore.Proofs.Transparency

/-!
Sequencing: which chunks of a command line have a turn, and what comes of it. Chunks have their
turns in order, up to one that fails unless failures are ignored. Their outcomes alone decide on the
prompt and on the exit code, and the statistics tell of all statements that were executed in all
turns.
-/

namespace LuaCore

open Evaluation

/-- The activities are the executions of statements while a text is executed, each of them once. -/
structure Session.Executed (fuel : Nat) (session : Session) (source : String)
    (executed : List Activity) : Prop where
  exact : ∀ inner, inner ∈ executed ↔ ∃ first,
    session.activity? fuel (.execute source) = some first ∧ Visits first inner ∧ inner.IsExecution
  distinct : executed.Nodup

theorem execute_executed {fuel : Nat} {session next : Session} {source : String}
    {answer : Except RunError Value}
    (ran : session.execute fuel source = some (answer, next)) :
    ∃ executed, session.Executed fuel source executed ∧
      next.counted.getD 0 = session.counted.getD 0 + executed.length := by
  cases parsed : parse source with
  | error error =>
      have none : session.activity? fuel (.execute source) = none := by
        simp only [Session.activity?, parsed]
      rw [execute_refused parsed ran]
      refine ⟨[], ⟨fun inner => ?_, .nil⟩, rfl⟩
      simp [none]
  | ok program =>
      obtain ⟨answer, ran⟩ := execute_parsed parsed ran
      obtain ⟨executed, executions, steps⟩ := executions_counted (program_ends ran)
      have first : session.activity? fuel (.execute source) =
          some ⟨fuel, session.machine, [{}], .executeBlock program⟩ := by
        simp only [Session.activity?, parsed]
      refine ⟨executed, ⟨fun inner => ?_, executions.distinct⟩, ?_⟩
      · rw [executions.exact, first]
        simp
      · rw [(run_counts ran).2.counted, Option.getD_some, steps, Nat.add_sub_cancel_left]

namespace CommandLine

/-- A chunk that has had its turn, with what it ended with and the statements executed in it. -/
structure Turn where
  chunk : Chunk
  answer : Except RunError Value
  executed : List Activity

/-- The chunk ran to its end. -/
def Turn.ok (turn : Turn) : Bool :=
  turn.answer.isOk

/-- How many statements were executed in the turns. -/
def steps (turns : List Turn) : Nat :=
  (turns.flatMap Turn.executed).length

/-- The turns come one behind the other, each on the session that the one before has left. -/
inductive Succession (fuel : Nat) : Session → List Turn → Session → Prop where
  | none {session : Session} : Succession fuel session [] session
  | turn {session next last : Session} {turn : Turn} {rest : List Turn}
      (ran : session.execute fuel turn.chunk.source = some (turn.answer, next))
      (executed : session.Executed fuel turn.chunk.source turn.executed)
      (behind : Succession fuel next.drain.2 rest last) :
      Succession fuel session (turn :: rest) last

/-- Chunks have their turns up to one that needs more fuel. -/
def Starved (fuel : Nat) (session : Session) (chunks : List Chunk) (turns : List Turn) : Prop :=
  ∃ chunk last, Succession fuel session turns last ∧ last.execute fuel chunk.source = none ∧
    turns.map Turn.chunk ++ [chunk] <+: chunks

/-- The turns are those of all chunks up to and with the first one that fails, or of all chunks if
there is none or failures are ignored. -/
structure UpToFailure (ignore : Bool) (chunks : List Chunk) (turns : List Turn) : Prop where
  order : turns.map Turn.chunk <+: chunks
  goes : ignore = false → turns.dropLast.all Turn.ok
  stops : turns.map Turn.chunk ≠ chunks →
    ignore = false ∧ ∃ turn, turns.getLast? = some turn ∧ turn.ok = false

/-- The chunks that are typed at the prompt, if it comes to that. -/
def Plan.typed (options : Options) (surroundings : Surroundings) : List Chunk :=
  (Typing.ofLines [] (Plan.lines options surroundings)).chunks.map Shell.typed

/-- How far a command line is gone through with too little fuel: no chunk that has had its turn
stands in the way of the next one. -/
structure Unfinished (fuel : Nat) (options : Options) (surroundings : Surroundings)
    (turns : List Turn) : Prop where
  starved : Starved fuel (Session.start options.verbose)
    ((Plan.ofOptions options surroundings).chunks ++
      if (Plan.ofOptions options surroundings).prompts then Plan.typed options surroundings else [])
    turns
  went : options.ignore ||
    (turns.take (Plan.ofOptions options surroundings).chunks.length).all Turn.ok

/-- How a command line is gone through, if all turns end: the turns of its chunks, those at the
prompt if there is one, and the shell behind them. -/
structure Sequel (fuel : Nat) (options : Options) (surroundings : Surroundings)
    (turns typed : List Turn) (prompts : Bool) (last : Shell) : Prop where
  succession : Succession fuel (Session.start options.verbose) (turns ++ typed) last.session
  chunks : UpToFailure options.ignore (Plan.ofOptions options surroundings).chunks turns
  completed : last.completed = turns.countP Turn.ok
  failures : last.failures = turns.countP fun turn => !turn.ok
  prompt : prompts = ((options.ignore || turns.all Turn.ok) &&
    (options.interactive || (Plan.ofOptions options surroundings).chunks.isEmpty))
  behind : ∃ shell, (Shell.start options).runPlan fuel options.ignore
      (Plan.ofOptions options surroundings) = some (prompts, shell) ∧
    if prompts then
      shell.feedAll fuel (Plan.lines options surroundings) = some last ∧
        typed.map Turn.chunk = Plan.typed options surroundings
    else last = shell ∧ typed = []

/-- The result behind the turns of the chunks and those at the prompt. -/
def outcome (milliseconds : Nat) (options : Options) (turns typed : List Turn) (last : Shell) :
    Result where
  exitCode := if turns.all Turn.ok then 0 else 1
  written := written options.plain (last.output.toList ++
    if options.stats && turns.any Turn.ok then
      Shell.statisticsPieces milliseconds (steps (turns ++ typed))
    else [])

section

variable {fuel : Nat} {session middle last : Session} {turns others : List Turn}
  {chunks more : List Chunk}

/-- A text that is executed is a turn. -/
theorem execute_succession {chunk : Chunk} {answer : Except RunError Value}
    (ran : session.execute fuel chunk.source = some (answer, middle))
    (behind : Succession fuel middle.drain.2 turns last) :
    ∃ turn, turn.chunk = chunk ∧ turn.answer = answer ∧
      Succession fuel session (turn :: turns) last := by
  obtain ⟨executed, executions, _⟩ := execute_executed ran
  exact ⟨⟨chunk, answer, executed⟩, rfl, rfl, .turn ran executions behind⟩

theorem succession_append (first : Succession fuel session turns middle)
    (second : Succession fuel middle others last) :
    Succession fuel session (turns ++ others) last := by
  induction first with
  | none => exact second
  | turn ran executed _ ih => exact .turn ran executed (ih second)

/-- The statements of all turns are counted. -/
theorem succession_counted (succession : Succession fuel session turns last) :
    last.counted.getD 0 = session.counted.getD 0 + steps turns := by
  induction succession with
  | none => rfl
  | @turn session next last turn rest ran executed _ ih =>
      obtain ⟨others, executed', counted⟩ := execute_executed ran
      have same : others.length = turn.executed.length := by
        refine ((List.perm_ext_iff_of_nodup executed'.distinct executed.distinct).mpr ?_).length_eq
        exact fun inner => (executed'.exact inner).trans (executed.exact inner).symm
      have sum : steps (turn :: rest) = turn.executed.length + steps rest := List.length_append
      rw [ih, sum, ← Nat.add_assoc, ← same, ← counted]
      rfl

theorem starved_append (starved : Starved fuel session chunks turns) :
    Starved fuel session (chunks ++ more) turns := by
  obtain ⟨chunk, last, succession, none, before⟩ := starved
  exact ⟨chunk, last, succession, none, before.trans (List.prefix_append chunks more)⟩

/-- Turns come behind the ones that there have been. -/
theorem starved_behind (succession : Succession fuel session turns middle)
    (starved : Starved fuel middle more others) :
    Starved fuel session (turns.map Turn.chunk ++ more) (turns ++ others) := by
  obtain ⟨chunk, last, succession', none, before⟩ := starved
  refine ⟨chunk, last, succession_append succession succession', none, ?_⟩
  rw [List.map_append, List.append_assoc]
  exact (List.prefix_append_right_inj _).mpr before

theorem starved_now {chunk : Chunk} (none : session.execute fuel chunk.source = none) :
    Starved fuel session (chunk :: more) [] :=
  ⟨chunk, session, .none, none, List.prefix_append [chunk] more⟩

end

/-! Which chunks have a turn. -/

section

variable {ignore : Bool} {chunks : List Chunk} {turns : List Turn} {turn : Turn}

theorem upToFailure_none : UpToFailure ignore [] [] :=
  ⟨List.prefix_rfl, fun _ => rfl, fun left => absurd rfl left⟩

theorem upToFailure_goes (went : turn.ok || ignore) (behind : UpToFailure ignore chunks turns) :
    UpToFailure ignore (turn.chunk :: chunks) (turn :: turns) := by
  constructor
  · exact List.cons_prefix_cons.mpr ⟨rfl, behind.order⟩
  · rintro rfl
    cases turns with
    | nil => rfl
    | cons next others =>
        rw [List.dropLast_cons_cons, List.all_cons, behind.goes rfl]
        simpa using went
  · intro left
    obtain ⟨heeds, last, same, failed⟩ :=
      behind.stops fun whole => left (congrArg (turn.chunk :: ·) whole)
    refine ⟨heeds, last, ?_, failed⟩
    rw [List.getLast?_cons, same]
    rfl

theorem upToFailure_stops (heeds : ignore = false) (failed : turn.ok = false) :
    UpToFailure ignore (turn.chunk :: chunks) [turn] :=
  ⟨List.prefix_append [turn.chunk] chunks, fun _ => rfl, fun _ => ⟨heeds, turn, rfl, failed⟩⟩

/-- Nothing is left behind turns that did not fail. -/
theorem upToFailure_whole (upToFailure : UpToFailure ignore chunks turns)
    (went : ignore || turns.all Turn.ok) : turns.map Turn.chunk = chunks := by
  by_contra left
  obtain ⟨rfl, turn, same, failed⟩ := upToFailure.stops left
  have ok : turn.ok := List.all_eq_true.mp went turn (List.mem_of_getLast? same)
  rw [failed] at ok
  cases ok

end

namespace Shell

variable {fuel : Nat} {shell next : Shell}

/-- The chunks that had these turns are counted as what they ended as. -/
structure Tallied (shell : Shell) (turns : List Turn) (next : Shell) : Prop where
  completed : next.completed = shell.completed + turns.countP Turn.ok
  failures : next.failures = shell.failures + turns.countP fun turn => !turn.ok

/-- A chunk has a turn, which is counted. -/
theorem runChunk_turn {chunk : Chunk} {done : Bool} {turns : List Turn} {last : Session}
    (ran : shell.runChunk fuel chunk = some (done, next))
    (behind : Succession fuel next.session turns last) :
    ∃ turn, turn.chunk = chunk ∧ turn.ok = done ∧
      Succession fuel shell.session (turn :: turns) last ∧ shell.Tallied [turn] next := by
  rw [runChunk_extend] at ran
  obtain ⟨⟨answer, middle⟩, executed, same⟩ := Option.map_eq_some_iff.mp ran
  cases same
  obtain ⟨turn, rfl, rfl, succession⟩ := execute_succession executed behind
  refine ⟨turn, rfl, rfl, succession, ?_, ?_⟩
  · simp only [List.countP_singleton]
    rfl
  · simp only [List.countP_singleton, Bool.not_eq_true', ← Bool.not_eq_true, ite_not]
    rfl

theorem tallied_cons {middle : Shell} {turn : Turn} {turns : List Turn}
    (first : shell.Tallied [turn] middle) (behind : middle.Tallied turns next) :
    shell.Tallied (turn :: turns) next := by
  constructor
  · rw [behind.completed, first.completed, Nat.add_assoc, ← List.countP_append,
      List.singleton_append]
  · rw [behind.failures, first.failures, Nat.add_assoc, ← List.countP_append,
      List.singleton_append]

theorem ignore_cons {turn : Turn} {turns : List Turn} (ignore : Bool) (went : turn.ok || ignore) :
    (ignore || (turn :: turns).all Turn.ok) = (ignore || turns.all Turn.ok) := by
  cases ignore
  · have ok : turn.ok = true := (Bool.or_false turn.ok).symm.trans went
    rw [List.all_cons, ok, Bool.true_and]
  · rfl

/-- Chunks have their turns up to a failure. -/
theorem runChunks_turns {ignore done : Bool} {chunks : List Chunk}
    (ran : shell.runChunks fuel ignore chunks = some (done, next)) :
    ∃ turns, Succession fuel shell.session turns next.session ∧ UpToFailure ignore chunks turns ∧
      shell.Tallied turns next ∧ done = (ignore || turns.all Turn.ok) := by
  induction chunks generalizing shell with
  | nil =>
      cases ran
      exact ⟨[], .none, upToFailure_none, ⟨rfl, rfl⟩, (Bool.or_true ignore).symm⟩
  | cons chunk rest ih =>
      rw [runChunks] at ran
      cases first : shell.runChunk fuel chunk with
      | none =>
          rw [first] at ran
          cases ran
      | some pair =>
          obtain ⟨done, middle⟩ := pair
          simp only [first] at ran
          split_ifs at ran with went
          · obtain ⟨turns, succession, upToFailure, tallied, rfl⟩ := ih ran
            obtain ⟨turn, rfl, rfl, succession', tallied'⟩ := runChunk_turn first succession
            refine ⟨turn :: turns, succession', upToFailure_goes went upToFailure,
              tallied_cons tallied' tallied, ?_⟩
            exact (ignore_cons ignore went).symm
          · cases ran
            obtain ⟨turn, rfl, rfl, succession, tallied⟩ := runChunk_turn first .none
            obtain ⟨failed, heeds⟩ := Bool.or_eq_false_iff.mp (Bool.not_eq_true _ ▸ went)
            refine ⟨[turn], succession, upToFailure_stops heeds failed, tallied, ?_⟩
            simp [heeds, failed]

/-- Chunks do not all have their turns only for want of fuel. -/
theorem runChunks_starved {ignore : Bool} {chunks : List Chunk}
    (ran : shell.runChunks fuel ignore chunks = none) :
    ∃ turns, Starved fuel shell.session chunks turns ∧ (ignore || turns.all Turn.ok) := by
  induction chunks generalizing shell with
  | nil => cases ran
  | cons chunk rest ih =>
      rw [runChunks] at ran
      cases first : shell.runChunk fuel chunk with
      | none =>
          rw [runChunk_extend, Option.map_eq_none_iff] at first
          exact ⟨[], starved_now first, Bool.or_true ignore⟩
      | some pair =>
          obtain ⟨done, middle⟩ := pair
          simp only [first] at ran
          split_ifs at ran with went
          obtain ⟨turns, starved, all⟩ := ih ran
          obtain ⟨turn, rfl, rfl, succession, _⟩ := runChunk_turn first .none
          refine ⟨turn :: turns, starved_behind succession starved, ?_⟩
          exact (ignore_cons ignore went).trans all

/-! Turns at the prompt. -/

/-- A typed chunk has a turn, which is not counted among the chunks. -/
theorem turn_succession {lines : List String} {turns : List Turn} {last : Session}
    (turned : shell.turn fuel lines = some next)
    (behind : Succession fuel next.session turns last) :
    ∃ turn, turn.chunk = typed lines ∧ Succession fuel shell.session (turn :: turns) last ∧
      next.completed = shell.completed ∧ next.failures = shell.failures := by
  rw [turn_extend] at turned
  obtain ⟨⟨answer, middle⟩, executed, same⟩ := Option.map_eq_some_iff.mp turned
  cases same
  obtain ⟨turn, same, _, succession⟩ := execute_succession executed behind
  exact ⟨turn, same, succession, rfl, rfl⟩

theorem follow_turns {typing : Typing} (follows : shell.follow fuel typing = some next) :
    ∃ turns, Succession fuel shell.session turns next.session ∧
      turns.map Turn.chunk = typing.chunks.map typed ∧
      next.completed = shell.completed ∧ next.failures = shell.failures := by
  induction typing generalizing shell with
  | ended | left =>
      cases follows
      rw [ask_extend]
      exact ⟨[], .none, rfl, rfl, rfl⟩
  | skipped line rest ih =>
      have behind := ih follows
      rw [ask_extend] at behind
      exact behind
  | chunk lines rest ih =>
      rw [follow, ask_extend] at follows
      obtain ⟨middle, turned, behind⟩ := Option.bind_eq_some_iff.mp follows
      obtain ⟨turns, succession, same, completed, failures⟩ := ih behind
      obtain ⟨turn, chunk, succession', completed', failures'⟩ := turn_succession turned succession
      refine ⟨turn :: turns, succession', ?_, completed.trans completed', failures.trans failures'⟩
      rw [List.map_cons, chunk, same]
      rfl

theorem follow_starved {typing : Typing} (follows : shell.follow fuel typing = none) :
    ∃ turns, Starved fuel shell.session (typing.chunks.map typed) turns := by
  induction typing generalizing shell with
  | ended | left => cases follows
  | skipped line rest ih =>
      have behind := ih follows
      rw [ask_extend] at behind
      exact behind
  | chunk lines rest ih =>
      rw [follow, ask_extend] at follows
      cases turned : (shell.extend ((asks lines.length).map (Piece.mk .out))).turn fuel lines with
      | none =>
          rw [turn_extend, Option.map_eq_none_iff] at turned
          exact ⟨[], starved_now turned⟩
      | some middle =>
          rw [turned] at follows
          obtain ⟨turns, starved⟩ := ih follows
          obtain ⟨turn, same, succession, _⟩ := turn_succession turned .none
          have starved' := starved_behind succession starved
          rw [List.map_singleton, same] at starved'
          exact ⟨turn :: turns, starved'⟩

theorem runPlan_turns {ignore prompts : Bool} {plan : Plan}
    (ran : shell.runPlan fuel ignore plan = some (prompts, next)) :
    ∃ turns, Succession fuel shell.session turns next.session ∧
      UpToFailure ignore plan.chunks turns ∧ shell.Tallied turns next ∧
      prompts = ((ignore || turns.all Turn.ok) && plan.prompts) := by
  obtain ⟨⟨done, middle⟩, ran, same⟩ := Option.map_eq_some_iff.mp ran
  obtain ⟨turns, succession, upToFailure, tallied, rfl⟩ := runChunks_turns ran
  refine ⟨turns, ?_⟩
  simp only at same
  split_ifs at same with both
  all_goals cases same
  · exact ⟨succession, upToFailure, ⟨tallied.completed, tallied.failures⟩, both.symm⟩
  · exact ⟨succession, upToFailure, tallied, (Bool.not_eq_true _ ▸ both).symm⟩

/-! The end of a run. -/

/-- Statistics come behind everything else, if they are asked for and a chunk ran to its end. -/
theorem finish_extend (milliseconds : Nat) (options : Options) (shell : Shell) :
    shell.finish milliseconds options = shell.extend
      (if options.stats && 0 < shell.completed then
        statisticsPieces milliseconds (shell.session.counted.getD 0)
      else []) := by
  unfold finish writeStatistics
  cases options.stats
  · exact (extend_nil shell).symm
  · by_cases some : 0 < shell.completed
    · simp only [writeLine_extend, extend_extend, some]
      rfl
    · simp [some, extend_nil]

end Shell

/-- There is a prompt if somebody asks for it, or for want of chunks. -/
theorem plan_prompts (options : Options) (surroundings : Surroundings) :
    (Plan.ofOptions options surroundings).prompts = (options.interactive ||
      (Plan.ofOptions options surroundings).chunks.isEmpty) := by
  unfold Plan.ofOptions
  split_ifs with pipes
  · have quiet : options.interactive = false := by
      simp [Plan.pipes] at pipes
      exact pipes.1.2
    rw [quiet]
    rfl
  · rfl

section

variable {fuel : Nat} {options : Options} {surroundings : Surroundings} {turns typed : List Turn}
  {prompts : Bool} {last : Shell}

/-- Behind the chunks of a run there is the prompt, if it comes to that, and then its end. -/
theorem runOptions_prompt {shell : Shell} (milliseconds : Nat)
    (ran : (Shell.start options).runPlan fuel options.ignore (Plan.ofOptions options surroundings) =
      some (prompts, shell)) :
    runOptions fuel milliseconds options surroundings =
      (if prompts then shell.feedAll fuel (Plan.lines options surroundings) else some shell).map
        fun last => ⟨(last.finish milliseconds options).exitCode,
          written options.plain (last.finish milliseconds options).output.toList⟩ := by
  unfold runOptions
  simp only [ran, Option.bind_eq_bind, Option.bind_some, Option.map_eq_bind]
  cases prompts <;> rfl

/-- What is gone through ends with a result, which the turns of the chunks decide on. -/
theorem sequel_outcome (milliseconds : Nat)
    (sequel : Sequel fuel options surroundings turns typed prompts last) :
    runOptions fuel milliseconds options surroundings =
      some (outcome milliseconds options turns typed last) := by
  have went : decide (0 < last.completed) = turns.any Turn.ok := by
    rw [sequel.completed, Bool.eq_iff_iff, decide_eq_true_iff, List.countP_pos_iff,
      List.any_eq_true]
  have failed : last.exitCode = if turns.all Turn.ok then 0 else 1 := by
    unfold Shell.exitCode
    congr 1
    rw [sequel.failures, List.countP_eq_zero, List.all_eq_true]
    simp
  have counted : last.session.counted.getD 0 = steps (turns ++ typed) :=
    (succession_counted sequel.succession).trans (Nat.zero_add _)
  obtain ⟨shell, ran, behind⟩ := sequel.behind
  have ended : (if prompts then shell.feedAll fuel (Plan.lines options surroundings)
      else some shell) = some last := by
    cases prompts
    · exact congrArg some behind.1.symm
    · exact behind.1
  rw [runOptions_prompt milliseconds ran, ended, Option.map_some, Shell.finish_extend, counted,
    went, outcome, ← failed]
  simp only [Shell.extend, Array.toList_append]
  rfl

theorem chunks_unfinished (ran : (Shell.start options).runPlan fuel options.ignore
      (Plan.ofOptions options surroundings) = none) :
    ∃ turns, Unfinished fuel options surroundings turns := by
  obtain ⟨turns, starved, went⟩ := Shell.runChunks_starved (Option.map_eq_none_iff.mp ran)
  refine ⟨turns, starved_append starved, ?_⟩
  obtain ⟨_, _, _, _, before⟩ := starved
  have fewer : turns.length ≤ (Plan.ofOptions options surroundings).chunks.length := by
    rw [← List.length_map Turn.chunk]
    exact ((List.prefix_append _ _).trans before).length_le
  rwa [List.take_of_length_le fewer]

/-- Behind the chunks everything is gone through, or there is not enough fuel for the prompt. -/
theorem chunks_sequel {shell : Shell} (ran : (Shell.start options).runPlan fuel options.ignore
      (Plan.ofOptions options surroundings) = some (prompts, shell)) :
    (∃ turns typed last, Sequel fuel options surroundings turns typed prompts last) ∨
      prompts ∧ shell.feedAll fuel (Plan.lines options surroundings) = none ∧
        ∃ turns, Unfinished fuel options surroundings turns := by
  obtain ⟨turns, succession, upToFailure, tallied, prompt⟩ := Shell.runPlan_turns ran
  have completed : shell.completed = turns.countP Turn.ok :=
    tallied.completed.trans (Nat.zero_add _)
  have failures : shell.failures = turns.countP fun turn => !turn.ok :=
    tallied.failures.trans (Nat.zero_add _)
  have prompt' := prompt
  rw [plan_prompts] at prompt'
  cases prompts with
  | false =>
      refine .inl ⟨turns, [], shell, ?_, upToFailure, completed, failures, prompt', ?_⟩
      · rwa [List.append_nil]
      · exact ⟨shell, ran, rfl, rfl⟩
  | true =>
      obtain ⟨went, prompted⟩ := Bool.and_eq_true_iff.mp prompt.symm
      have whole := upToFailure_whole upToFailure went
      have settled := Shell.runPlan_settled (Shell.start_settled options) ran
      rw [Shell.feedAll_ofLines fuel _ settled]
      cases fed : shell.follow fuel (Typing.ofLines [] (Plan.lines options surroundings)) with
      | none =>
          obtain ⟨others, starved⟩ := Shell.follow_starved fed
          have starved' := starved_behind succession starved
          rw [whole] at starved'
          refine .inr ⟨rfl, rfl, turns ++ others, ?_, ?_⟩
          · rwa [if_pos prompted]
          · rwa [← whole, List.length_map, List.take_left]
      | some last =>
          obtain ⟨typed, succession', same, completed', failures'⟩ := Shell.follow_turns fed
          refine .inl ⟨turns, typed, last, succession_append succession succession', upToFailure,
            completed'.trans completed, failures'.trans failures, prompt', shell, ran, ?_, same⟩
          rwa [Shell.feedAll_ofLines fuel _ settled]

end

/-- Of the chunks of a command line those have a turn that come before the first failure and the
failing one, or all if failures are ignored. They decide on whether there is a prompt and on the
exit code, and the statistics count what was executed in all turns. There is no result only for want
of fuel in the turn of a chunk. -/
theorem chunks_sequenced (fuel milliseconds : Nat) (options : Options)
    (surroundings : Surroundings) :
    (∃ turns typed prompts last, Sequel fuel options surroundings turns typed prompts last ∧
      runOptions fuel milliseconds options surroundings =
        some (outcome milliseconds options turns typed last)) ∨
    runOptions fuel milliseconds options surroundings = none ∧
      ∃ turns, Unfinished fuel options surroundings turns := by
  cases ran : (Shell.start options).runPlan fuel options.ignore
      (Plan.ofOptions options surroundings) with
  | none =>
      have stuck : runOptions fuel milliseconds options surroundings = none := by
        rw [runOptions, ran]
        rfl
      exact .inr ⟨stuck, chunks_unfinished ran⟩
  | some pair =>
      obtain ⟨prompts, shell⟩ := pair
      rcases chunks_sequel ran with ⟨turns, typed, last, sequel⟩ | ⟨rfl, stuck, unfinished⟩
      · exact .inl ⟨turns, typed, prompts, last, sequel, sequel_outcome milliseconds sequel⟩
      · refine .inr ⟨?_, unfinished⟩
        rw [runOptions_prompt milliseconds ran, if_pos rfl, stuck, Option.map_none]

end CommandLine

end LuaCore
