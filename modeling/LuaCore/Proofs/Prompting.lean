import Mathlib.Tactic.ByContra
import LuaCore.Proofs.Keeping
import LuaCore.Proofs.Turns

/-!
The prompt: how the lines that are typed at it fall into chunks. No line is lost and none is taken
twice. A chunk is the shortest group of lines that does not stop too early, and the lines before it
is whole are nothing but asked for.
-/

namespace LuaCore.CommandLine

/-- The lines stop too early: more of them are to be typed. -/
def Waits (lines : List String) : Prop :=
  ∃ error, parse (String.intercalate "\n" lines ++ "\n") = .error error ∧ error.isIncomplete

instance (lines : List String) : Decidable (Waits lines) :=
  match parsed : parse (String.intercalate "\n" lines ++ "\n") with
  | .ok _ => .isFalse fun ⟨_, refused, _⟩ => nomatch parsed.symm.trans refused
  | .error error => decidable_of_iff (error.isIncomplete = true)
      ⟨fun early => ⟨error, parsed, early⟩, fun ⟨_, refused, early⟩ =>
        Except.error.inj (parsed.symm.trans refused) ▸ early⟩

/-- How lines at the prompt are taken, one group after the other: a blank line is skipped, a whole
chunk is run, and either somebody leaves or there are no more lines. -/
inductive Typing where
  | ended (unfinished : List String)
  | left (line : String) (unread : List String)
  | skipped (line : String) (rest : Typing)
  | chunk (lines : List String) (rest : Typing)

/-- Nothing that is taken in itself is in front of the lines, and only all of them together can be a
whole chunk. -/
structure Opens (lines : List String) : Prop where
  first : ∃ line rest, lines = line :: rest ∧ ¬ Shell.isBlankLine line ∧ ¬ Shell.isLeaving line
  waits : ∀ front, front <+: lines → front ≠ [] → front ≠ lines → Waits front

namespace Typing

def lines : Typing → List String
  | ended unfinished => unfinished
  | left line unread => line :: unread
  | skipped line rest => line :: rest.lines
  | chunk lines rest => lines ++ rest.lines

def chunks : Typing → List (List String)
  | ended _ => []
  | left _ _ => []
  | skipped _ rest => rest.chunks
  | chunk lines rest => lines :: rest.chunks

inductive Proper : Typing → Prop where
  | ended : Proper (.ended [])
  | unfinished {lines : List String} (opens : Opens lines) (waits : Waits lines) :
      Proper (.ended lines)
  | left {line : String} (unread : List String) (leaving : Shell.isLeaving line)
      (word : ¬ Shell.isBlankLine line) : Proper (.left line unread)
  | skipped {line : String} {rest : Typing} (blank : Shell.isBlankLine line)
      (behind : Proper rest) : Proper (.skipped line rest)
  | chunk {lines : List String} {rest : Typing} (opens : Opens lines) (whole : ¬ Waits lines)
      (behind : Proper rest) : Proper (.chunk lines rest)

/-- How lines are taken behind those that a chunk has begun with. -/
def ofLines (pending : List String) : List String → Typing
  | [] => .ended pending
  | line :: rest =>
      if pending.isEmpty && Shell.isBlankLine line then .skipped line (ofLines [] rest)
      else if pending.isEmpty && Shell.isLeaving line then .left line rest
      else if Waits (pending ++ [line]) then ofLines (pending ++ [line]) rest
      else .chunk (pending ++ [line]) (ofLines [] rest)

end Typing

namespace Shell

/-- The shell with lines that are not a whole chunk yet. -/
def holding (lines : List String) (shell : Shell) : Shell :=
  { shell with pending := lines }

/-- What is asked with while so many lines are typed. -/
def asks (count : Nat) : List String :=
  (List.range count).map fun before =>
    if before = 0 then Report.coloured "36" "<<< " else Report.coloured "36" "... "

/-- Asks for lines. -/
def ask (count : Nat) (shell : Shell) : Shell :=
  (asks count).foldl (fun shell text => shell.write .out text) shell

/-- Executes typed lines, and shows their result or reports their failure. -/
def turn (fuel : Nat) (lines : List String) (shell : Shell) : Option Shell :=
  (shell.execute fuel (typed lines)).map fun
    | (.ok value, shell) => shell.showTyped value
    | (.error error, shell) => shell.fail (typed lines) error

/-- Takes lines in a certain way: they are asked for, and each chunk has one turn. -/
def follow (fuel : Nat) : Typing → Shell → Option Shell
  | .ended unfinished, shell =>
      some (((shell.ask (unfinished.length + 1)).writeLine .out "").holding unfinished)
  | .left _ _, shell => some (shell.ask 1)
  | .skipped _ rest, shell => follow fuel rest (shell.ask 1)
  | .chunk lines rest, shell =>
      ((shell.ask lines.length).turn fuel lines).bind fun shell => follow fuel rest shell

end Shell

/-! Groups of lines. -/

theorem opens_head {lines more rest : List String} {line : String} (opens : Opens lines)
    (same : lines ++ more = line :: rest) :
    ¬ Shell.isBlankLine line ∧ ¬ Shell.isLeaving line := by
  obtain ⟨first, others, rfl, kinds⟩ := opens.first
  cases same
  exact kinds

theorem opens_nonempty {lines : List String} (opens : Opens lines) : lines ≠ [] := by
  obtain ⟨first, others, rfl, _⟩ := opens.first
  exact List.cons_ne_nil first others

theorem opens_single {line : String} (word : ¬ Shell.isBlankLine line)
    (stays : ¬ Shell.isLeaving line) : Opens [line] := by
  refine ⟨⟨line, [], rfl, word, stays⟩, ?_⟩
  intro front before nonempty proper
  rcases List.prefix_cons_iff.mp before with none | ⟨others, same, shorter⟩
  · exact absurd none nonempty
  · rw [List.prefix_nil.mp shorter] at same
    exact absurd same proper

/-- A group that waits for more lines is opened by them too. -/
theorem opens_longer {lines : List String} (line : String) (opens : Opens lines)
    (waits : Waits lines) : Opens (lines ++ [line]) := by
  obtain ⟨first, others, same, kinds⟩ := opens.first
  refine ⟨⟨first, others ++ [line], by rw [same, List.cons_append], kinds⟩, ?_⟩
  intro front before nonempty proper
  rcases List.prefix_concat_iff.mp before with same | before
  · exact absurd same proper
  · by_cases all : front = lines
    · exact all ▸ waits
    · exact opens.waits front before nonempty all

/-- No whole chunk is in front of a group of lines. -/
theorem opens_whole {lines front : List String} (opens : Opens lines) (before : front <+: lines)
    (opens' : Opens front) (whole : ¬ Waits front) : front = lines := by
  by_contra proper
  exact whole (opens.waits front before (opens_nonempty opens') proper)

theorem whole_unique {first second more more' : List String} (opens : Opens first)
    (whole : ¬ Waits first) (opens' : Opens second) (whole' : ¬ Waits second)
    (same : first ++ more = second ++ more') : first = second ∧ more = more' := by
  have before : first <+: second ++ more' := ⟨more, same⟩
  have equal : first = second := by
    rcases List.prefix_or_prefix_of_prefix before (List.prefix_append second more') with
      shorter | shorter
    · exact opens_whole opens' shorter opens whole
    · exact (opens_whole opens shorter opens' whole').symm
  subst equal
  exact ⟨rfl, List.append_cancel_left same⟩

namespace Typing

theorem ofLines_lines (pending lines : List String) :
    (ofLines pending lines).lines = pending ++ lines := by
  induction lines generalizing pending with
  | nil => exact (List.append_nil pending).symm
  | cons line rest ih =>
      rw [ofLines]
      split_ifs with skips leaves waits
      · obtain ⟨none, _⟩ := Bool.and_eq_true_iff.mp skips
        rw [List.isEmpty_iff.mp none, Typing.lines, ih]
        rfl
      · obtain ⟨none, _⟩ := Bool.and_eq_true_iff.mp leaves
        rw [List.isEmpty_iff.mp none]
        rfl
      · rw [ih, List.append_assoc]
        rfl
      · rw [Typing.lines, ih, List.append_assoc]
        rfl

theorem ofLines_proper (pending lines : List String)
    (begun : pending = [] ∨ Opens pending ∧ Waits pending) : (ofLines pending lines).Proper := by
  induction lines generalizing pending with
  | nil =>
      rcases begun with rfl | ⟨opens, waits⟩
      · exact .ended
      · exact .unfinished opens waits
  | cons line rest ih =>
      have behind := ih [] (.inl rfl)
      rw [ofLines]
      split_ifs with skips leaves waits
      · exact .skipped (Bool.and_eq_true_iff.mp skips).2 behind
      · obtain ⟨none, leaving⟩ := Bool.and_eq_true_iff.mp leaves
        refine .left rest leaving fun blank => skips ?_
        rw [none, blank]
        rfl
      all_goals
        have opens : Opens (pending ++ [line]) := by
          rcases begun with rfl | ⟨opens, waits⟩
          · exact opens_single skips leaves
          · exact opens_longer line opens waits
      · exact ih _ (.inr ⟨opens, waits⟩)
      · exact .chunk opens waits behind

/-- Lines can be taken in one way only. -/
theorem proper_unique {first second : Typing} (proper : first.Proper) (proper' : second.Proper)
    (same : first.lines = second.lines) : first = second := by
  induction proper generalizing second with
  | ended =>
      cases proper' with
      | ended => rfl
      | unfinished opens => exact absurd same.symm (opens_nonempty opens)
      | left | skipped => cases same
      | chunk opens => exact absurd (List.append_eq_nil_iff.mp same.symm).1 (opens_nonempty opens)
  | @unfinished lines opens waits =>
      cases proper' with
      | ended => exact absurd same (opens_nonempty opens)
      | unfinished => exact congrArg Typing.ended same
      | left _ leaving =>
          exact absurd leaving (opens_head opens ((List.append_nil lines).trans same)).2
      | skipped blank =>
          exact absurd blank (opens_head opens ((List.append_nil lines).trans same)).1
      | chunk opens' whole =>
          have equal := opens_whole opens ⟨_, same.symm⟩ opens' whole
          exact absurd waits (equal ▸ whole)
  | @left line unread leaving word =>
      cases proper' with
      | ended => cases same
      | unfinished opens =>
          exact absurd leaving (opens_head opens ((List.append_nil _).trans same.symm)).2
      | left =>
          cases same
          rfl
      | skipped blank =>
          cases same
          exact absurd blank word
      | chunk opens => exact absurd leaving (opens_head opens same.symm).2
  | @skipped line rest blank _ ih =>
      cases proper' with
      | ended => cases same
      | unfinished opens =>
          exact absurd blank (opens_head opens ((List.append_nil _).trans same.symm)).1
      | left _ _ word =>
          cases same
          exact absurd blank word
      | skipped _ behind =>
          obtain ⟨rfl, others⟩ := List.cons.inj same
          rw [ih behind others]
      | chunk opens => exact absurd blank (opens_head opens same.symm).1
  | @chunk lines rest opens whole _ ih =>
      cases proper' with
      | ended => exact absurd (List.append_eq_nil_iff.mp same).1 (opens_nonempty opens)
      | unfinished opens' waits =>
          have equal := opens_whole opens' ⟨_, same⟩ opens whole
          exact absurd waits (equal ▸ whole)
      | left _ leaving => exact absurd leaving (opens_head opens same).2
      | skipped blank => exact absurd blank (opens_head opens same).1
      | chunk opens' whole' behind =>
          obtain ⟨rfl, others⟩ := whole_unique opens whole opens' whole' same
          rw [ih behind others]

end Typing

/-! Shells at the prompt. -/

namespace Shell

variable {shell : Shell} {fuel : Nat}

theorem typed_source {lines : List String} (nonempty : lines ≠ []) :
    (typed lines).source = String.intercalate "\n" lines ++ "\n" := by
  change String.join (lines.map (· ++ "\n")) = _
  induction lines with
  | nil => exact absurd rfl nonempty
  | cons line rest ih =>
      cases rest with
      | nil => simp [String.join_cons]
      | cons next others =>
          rw [List.map_cons, String.join_cons, ih (List.cons_ne_nil next others),
            String.intercalate_cons_cons, String.append_assoc, String.append_assoc,
            String.append_assoc]

/-- Everything that the session let out is written. -/
def Drained (shell : Shell) : Prop :=
  shell.session.machine.transcript = #[]

/-- No lines are pending, and nothing is left to be written. -/
structure Settled (shell : Shell) : Prop where
  pending : shell.pending = []
  drained : shell.Drained

theorem resume_drained (drained : shell.Drained) : shell.resume shell.session = shell := by
  obtain ⟨⟨machine, counted⟩, completed, failures, pending, output⟩ := shell
  obtain ⟨globals, cells, tables, functions, verbosity, steps, depth, transcript, addressed⟩ :=
    machine
  cases drained
  rfl

/-- An attempt on lines that stop too early changes nothing. -/
theorem runTyped_waits {lines : List String} (nonempty : lines ≠ []) (waits : Waits lines)
    (drained : shell.Drained) : shell.runTyped fuel lines = some (shell.holding lines) := by
  obtain ⟨error, refused, early⟩ := waits
  have attempt : shell.session.execute fuel (typed lines).source =
      some (.error (.parse error), shell.session) := by
    rw [typed_source nonempty, Session.execute, refused]
  rw [runTyped, execute, attempt, Option.map_some, Option.map_some, resume_drained drained]
  exact congrArg some (if_pos early)

theorem turn_extend (lines : List String) (shell : Shell) : shell.turn fuel lines =
    (shell.session.execute fuel (typed lines).source).map fun next =>
      extend { shell with session := next.2.drain.2 }
        (drainedPieces next.2 ++ typedPieces lines next.2.drain.2 next.1) := by
  rw [turn, execute_extend, Option.map_map]
  congr 1
  funext ⟨answer, next⟩
  cases answer with
  | ok value =>
      simp only [Function.comp_apply, showTyped_extend _ lines, extend_extend]
      rfl
  | error error =>
      simp only [Function.comp_apply, fail, writeLine_extend, extend_extend]
      rfl

/-- Only a text that does not parse is reported as one that stops too early. -/
theorem execute_late {lines : List String} {session next : Session} {error : ParseError}
    (nonempty : lines ≠ []) (whole : ¬ Waits lines)
    (ran : session.execute fuel (typed lines).source = some (.error (.parse error), next)) :
    ¬ error.isIncomplete := by
  intro early
  rw [typed_source nonempty] at ran
  rcases execute_cases ran with ⟨_, refused, same, _⟩ | ⟨_, inner, _, _, same⟩
  · cases same
    exact whole ⟨error, refused, early⟩
  · cases inner <;> cases same

/-- A whole chunk has its turn, and is no longer pending. -/
theorem runTyped_whole {lines : List String} (nonempty : lines ≠ []) (whole : ¬ Waits lines)
    (pending : List String) (settled : shell.pending = []) :
    (shell.holding pending).runTyped fuel lines = shell.turn fuel lines := by
  obtain ⟨session, completed, failures, none, output⟩ := shell
  obtain rfl : none = [] := settled
  rw [turn_extend, holding, runTyped, execute_extend, Option.map_map]
  cases ran : session.execute fuel (typed lines).source with
  | none => rfl
  | some next =>
      obtain ⟨answer, next⟩ := next
      cases answer with
      | ok value =>
          simp only [Option.map_some, Function.comp_apply, showTyped_extend _ lines, extend_extend]
          rfl
      | error error =>
          cases error with
          | parse error =>
              have late := execute_late nonempty whole ran
              simp only [Option.map_some, Function.comp_apply, late, fail, writeLine_extend,
                extend_extend]
              rfl
          | failure failure =>
              simp only [Option.map_some, Function.comp_apply, fail, writeLine_extend,
                extend_extend]
              rfl

/-! Asking. -/

theorem holding_pending (lines : List String) (shell : Shell) :
    (shell.holding lines).pending = lines :=
  rfl

theorem ask_succ (count : Nat) (shell : Shell) : shell.ask (count + 1) =
    (shell.ask count).write .out
      (if count = 0 then Report.coloured "36" "<<< " else Report.coloured "36" "... ") := by
  simp [ask, asks, List.range_succ]

theorem ask_extend (count : Nat) (shell : Shell) :
    shell.ask count = shell.extend ((asks count).map (Piece.mk .out)) := by
  unfold ask
  generalize asks count = texts
  induction texts generalizing shell with
  | nil => exact (extend_nil shell).symm
  | cons text rest ih =>
      rw [List.foldl_cons, ih, write_extend, extend_extend, List.map_cons, List.singleton_append]

/-- The question is the one that goes with the lines so far. -/
theorem ask_prompt (pending : List String) (shell : Shell) :
    ((shell.ask pending.length).holding pending).write .out
        ((shell.ask pending.length).holding pending).prompt =
      (shell.ask (pending.length + 1)).holding pending := by
  rw [ask_succ]
  cases pending <;> rfl

theorem holding_none (settled : shell.pending = []) : shell.holding [] = shell := by
  rw [← settled]
  rfl

theorem ask_settled (count : Nat) (settled : shell.Settled) : (shell.ask count).Settled := by
  rw [ask_extend]
  exact ⟨settled.pending, settled.drained⟩

theorem turn_settled {lines : List String} {next : Shell} (settled : shell.Settled)
    (turns : shell.turn fuel lines = some next) : next.Settled := by
  rw [turn_extend] at turns
  obtain ⟨⟨answer, session⟩, _, rfl⟩ := Option.map_eq_some_iff.mp turns
  exact ⟨settled.pending, rfl⟩

/-- Lines that are typed one after the other are taken in the way that is theirs, and so are those
behind a chunk that has begun. -/
theorem feedAll_follow (fuel : Nat) (lines pending : List String) {shell : Shell}
    (settled : shell.Settled) :
    feedAll fuel lines ((shell.ask pending.length).holding pending) =
      shell.follow fuel (Typing.ofLines pending lines) := by
  induction lines generalizing pending shell with
  | nil =>
      rw [feedAll, ask_prompt]
      rfl
  | cons line rest ih =>
      have longer : pending ++ [line] ≠ [] :=
        List.append_ne_nil_of_right_ne_nil pending (List.cons_ne_nil line [])
      have count : (pending ++ [line]).length = pending.length + 1 := List.length_append
      have settled' := ask_settled (pending.length + 1) settled
      have drained : ((shell.ask (pending.length + 1)).holding pending).Drained := settled'.drained
      rw [feedAll, ask_prompt, feed, holding_pending, Typing.ofLines]
      split_ifs with skips leaves waits
      · obtain ⟨none, _⟩ := Bool.and_eq_true_iff.mp skips
        cases List.isEmpty_iff.mp none
        exact ih [] settled'
      · obtain ⟨none, _⟩ := Bool.and_eq_true_iff.mp leaves
        cases List.isEmpty_iff.mp none
        exact congrArg some (holding_none settled'.pending)
      · rw [runTyped_waits longer waits drained, ← ih _ settled, count]
        rfl
      · rw [runTyped_whole longer waits pending settled'.pending, follow, count]
        cases turns : (shell.ask (pending.length + 1)).turn fuel (pending ++ [line]) with
        | none => rfl
        | some next =>
            have settled'' := turn_settled settled' turns
            have behind := ih [] settled''
            rw [show next.ask [].length = next from rfl, holding_none settled''.pending] at behind
            exact behind

theorem feedAll_ofLines (fuel : Nat) (lines : List String) (settled : shell.Settled) :
    shell.feedAll fuel lines = shell.follow fuel (Typing.ofLines [] lines) := by
  have follows := feedAll_follow fuel lines [] settled
  rwa [show shell.ask [].length = shell from rfl, holding_none settled.pending] at follows

/-! What the prompt comes behind. -/

theorem runChunk_settled {chunk : Chunk} {done : Bool} {next : Shell} (settled : shell.Settled)
    (ran : shell.runChunk fuel chunk = some (done, next)) : next.Settled := by
  rw [runChunk_extend] at ran
  obtain ⟨⟨answer, session⟩, _, same⟩ := Option.map_eq_some_iff.mp ran
  cases same
  exact ⟨settled.pending, rfl⟩

theorem runChunks_settled {ignore done : Bool} {chunks : List Chunk} {next : Shell}
    (settled : shell.Settled) (ran : shell.runChunks fuel ignore chunks = some (done, next)) :
    next.Settled := by
  induction chunks generalizing shell with
  | nil =>
      cases ran
      exact settled
  | cons chunk rest ih =>
      rw [runChunks] at ran
      cases first : shell.runChunk fuel chunk with
      | none =>
          rw [first] at ran
          cases ran
      | some pair =>
          obtain ⟨whole, middle⟩ := pair
          have settled' := runChunk_settled settled first
          rw [first] at ran
          simp only at ran
          split at ran
          · exact ih settled' ran
          · cases ran
            exact settled'

theorem runPlan_settled {ignore prompts : Bool} {plan : Plan} {next : Shell}
    (settled : shell.Settled) (ran : shell.runPlan fuel ignore plan = some (prompts, next)) :
    next.Settled := by
  obtain ⟨⟨done, middle⟩, ran, same⟩ := Option.map_eq_some_iff.mp ran
  have settled' := runChunks_settled settled ran
  simp only at same
  split at same
  · cases same
    exact ⟨settled'.pending, settled'.drained⟩
  · cases same
    exact settled'

theorem start_settled (options : Options) : (Shell.start options).Settled :=
  ⟨rfl, rfl⟩

theorem runTyped_drained {lines : List String} {next : Shell} (nonempty : lines ≠ [])
    (drained : shell.Drained) (ran : shell.runTyped fuel lines = some next) : next.Drained := by
  by_cases waits : Waits lines
  · rw [runTyped_waits nonempty waits drained] at ran
    cases ran
    exact drained
  · have settled : (shell.holding []).Settled := ⟨rfl, drained⟩
    have turns : (shell.holding []).turn fuel lines = some next :=
      (runTyped_whole nonempty waits shell.pending settled.pending).symm.trans ran
    exact (turn_settled settled turns).drained

end Shell

/-- The shells that the prompt comes to while lines are typed. -/
inductive Shell.Comes (fuel : Nat) (shell : Shell) : Shell → Prop where
  | entered : Comes fuel shell shell
  | typed {middle next : Shell} {line : String} (before : Comes fuel shell middle)
      (fed : (middle.write .out middle.prompt).feed fuel line = some (true, next)) :
      Comes fuel shell next

theorem comes_drained {fuel : Nat} {shell next : Shell} (drained : shell.Drained)
    (comes : shell.Comes fuel next) : next.Drained := by
  induction comes with
  | entered => exact drained
  | @typed middle next line _ fed ih =>
      have asked : (middle.write .out middle.prompt).Drained := ih
      have longer : (middle.write .out middle.prompt).pending ++ [line] ≠ [] :=
        List.append_ne_nil_of_right_ne_nil _ (List.cons_ne_nil line [])
      rw [Shell.feed] at fed
      split_ifs at fed
      · cases fed
        exact asked
      · cases fed
      · obtain ⟨last, ran, same⟩ := Option.map_eq_some_iff.mp fed
        cases same
        exact Shell.runTyped_drained longer asked ran

/-- Behind all chunks, lines at the prompt can be taken in just one way, and they are taken in it:
every whole chunk of them has one turn, in order, and nothing else happens but that lines are asked
for. An attempt on lines that stop too early leaves everything as it is. -/
theorem prompt_exact {fuel : Nat} {options : Options} {plan : Plan} {prompts : Bool} {shell : Shell}
    (entered : (Shell.start options).runPlan fuel options.ignore plan = some (prompts, shell)) :
    (∀ lines, ∃ typing : Typing, typing.Proper ∧ typing.lines = lines ∧
      (∀ other : Typing, other.Proper → other.lines = lines → other = typing) ∧
      ∀ fuel, shell.feedAll fuel lines = shell.follow fuel typing) ∧
    ∀ fuel middle, shell.Comes fuel middle → ∀ lines, lines ≠ [] → Waits lines →
      let asked := middle.write .out middle.prompt
      asked.runTyped fuel lines = some { asked with pending := lines } := by
  have settled := Shell.runPlan_settled (Shell.start_settled options) entered
  constructor
  · intro lines
    have proper := Typing.ofLines_proper [] lines (.inl rfl)
    have same := Typing.ofLines_lines [] lines
    refine ⟨Typing.ofLines [] lines, proper, same, ?_, ?_⟩
    · exact fun other proper' same' => Typing.proper_unique proper' proper (same'.trans same.symm)
    · exact fun fuel => Shell.feedAll_ofLines fuel lines settled
  · intro fuel middle comes lines nonempty waits
    have came : middle.Drained := comes_drained settled.drained comes
    have drained : (middle.write .out middle.prompt).Drained := came
    exact Shell.runTyped_waits nonempty waits drained

/-- A blank line is skipped, a call over two lines is one chunk, and what is typed behind the word
that leaves is not read. -/
theorem prompt_exact_call :
    let shell := (Shell.start {}).writeLine .out Shell.greeting
    let lines := ["", "f(", ")", "quit", "f()"]
    let typing : Typing := .skipped "" (.chunk ["f(", ")"] (.left "quit" ["f()"]))
    (Shell.start {}).runPlan 1 false ⟨[], true⟩ = some (true, shell) ∧ typing.Proper ∧
      typing.lines = lines ∧ ∀ fuel, shell.feedAll fuel lines = shell.follow fuel typing := by
  intro shell lines typing
  have entered : (Shell.start {}).runPlan 1 false ⟨[], true⟩ = some (true, shell) := rfl
  have waits : Waits ["f("] := by decide +kernel
  have whole : ¬ Waits ["f(", ")"] := by decide +kernel
  have opens : Opens ["f(", ")"] :=
    opens_longer ")" (opens_single (by decide) (by decide)) waits
  have proper : typing.Proper :=
    .skipped rfl (.chunk opens whole (.left _ (by decide) (by decide)))
  obtain ⟨_, _, _, unique, follows⟩ := (prompt_exact entered).1 lines
  obtain rfl := unique typing proper rfl
  exact ⟨entered, proper, rfl, follows⟩

end LuaCore.CommandLine
