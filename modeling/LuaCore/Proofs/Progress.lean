import LuaCore.Proofs.Binding
import LuaCore.Proofs.Stages

/-!
The progress of an activity from stage to stage. What it ends on is what its stages end on one after
the other, and it counts nothing but the statement that it is the execution of. If a stage fails the
activity does what it always does with a failure, and it has no other failure unless it makes one.
-/

namespace LuaCore

open Evaluation Activity

/-- The trace entry that is let out. -/
def Event.entry? : Event → Option TraceEntry
  | traced entry => some entry
  | _ => none

namespace Machine

def trace (machine : Machine) : List TraceEntry :=
  machine.transcript.toList.filterMap Event.entry?

/-- What is kept about statements: how many there were, whether they are traced, and their trace. -/
def ledger (machine : Machine) : Nat × Nat × List TraceEntry :=
  (machine.steps, machine.verbosity, machine.trace)

end Machine

/-- Nothing is counted or traced between the machines. -/
def Silent (machine next : Machine) : Prop :=
  next.ledger = machine.ledger

theorem silent_iff {machine next : Machine} : Silent machine next ↔
    next.steps = machine.steps ∧ next.verbosity = machine.verbosity ∧
      next.trace = machine.trace := by
  simp only [Silent, Machine.ledger, Prod.mk.injEq]

theorem silent_refl (machine : Machine) : Silent machine machine :=
  rfl

theorem silent_trans {machine next last : Machine} (first : Silent machine next)
    (second : Silent next last) : Silent machine last :=
  second.trans first

theorem emit_silent (machine : Machine) {event : Event} (other : event.entry? = none) :
    Silent machine (machine.emit event) := by
  simp [Silent, Machine.ledger, Machine.trace, Machine.emit, other]

/-! Failures. -/

/-- No function has put its name to the failure. -/
def Failure.IsFresh : Failure → Prop
  | misuse _ _ function => function = none
  | _ => True

/-- The failure that an outcome is, if it is one, and the machine in any case. -/
def Outcome.ending {α : Type} : Outcome α → Option (Option Failure × Machine)
  | done _ machine => some (none, machine)
  | failed failure machine => some (some failure, machine)
  | exhausted => none

def Outcome.failure? {α : Type} (outcome : Outcome α) : Option Failure :=
  outcome.ending.bind Prod.fst

theorem Outcome.machine_ending {α : Type} (outcome : Outcome α) :
    outcome.machine? = outcome.ending.map Prod.snd := by
  cases outcome <;> rfl

namespace Activity

/-- What the activity ends with: its failure, if it fails, and the machine in any case. -/
def ending : Activity → Option (Option Failure × Machine)
  | ⟨fuel, machine, scope :: _, .evaluate expression⟩ =>
      (Evaluation.evaluate (apply fuel) fuel scope expression machine).ending
  | ⟨fuel, machine, scope :: _, .evaluateAll expressions⟩ =>
      (Evaluation.evaluateAll (apply fuel) fuel scope expressions machine).ending
  | ⟨fuel, machine, scope :: _, .fill id position fields⟩ =>
      (fillTable (apply fuel) fuel scope id position fields machine).ending
  | ⟨fuel, machine, scope :: _, .execute statement⟩ =>
      (Evaluation.execute (apply fuel) fuel scope statement machine).ending
  | ⟨fuel, machine, scope :: _, .executeBlock statements⟩ =>
      (Evaluation.executeBlock (apply fuel) fuel scope statements machine).ending
  | ⟨fuel, machine, scope :: _, .executeBranches otherwise branches⟩ =>
      (Evaluation.executeBranches (apply fuel) fuel scope
        (executeOtherwise (apply fuel) fuel scope otherwise) branches machine).ending
  | ⟨fuel, machine, scope :: _, .rounds body name limit step bound counter⟩ =>
      (Evaluation.rounds (fun scope => Evaluation.executeBlock (apply fuel) fuel scope body) name
        limit step bound counter scope machine).ending
  | ⟨fuel, machine, _, .apply function arguments⟩ =>
      (Evaluation.apply fuel function arguments machine).ending
  | _ => none

def failure? (activity : Activity) : Option Failure :=
  activity.ending.bind Prod.fst

/-- What the activity makes of the failure of something that it enters: a script function puts its
name to it, and an attempt catches the script's own. -/
def outlet (activity : Activity) (failure : Failure) : Option Failure :=
  match activity.task with
  | .apply (.function id) _ => match activity.machine.callable id with
      | .closure closure => some (failure.leaving closure.errorName)
      | .native _ .attempt => if failure.isMisuse then none else some failure
      | .native .. => some failure
  | _ => some failure

theorem machine_ending (activity : Activity) :
    activity.machine? = activity.ending.map Prod.snd := by
  obtain ⟨fuel, machine, scopes, task⟩ := activity
  cases scopes <;> cases task <;> first | rfl | exact Outcome.machine_ending _

theorem machine_ended {activity : Activity} {reason : Option Failure} {after : Machine}
    (ended : activity.ending = some (reason, after)) : activity.machine? = some after := by
  rw [machine_ending, ended]
  rfl

theorem failure_ended {activity : Activity} {reason : Option Failure} {after : Machine}
    (ended : activity.ending = some (reason, after)) : activity.failure? = reason := by
  unfold failure?
  rw [ended]
  rfl

end Activity

/-- The stages are done one after the other, and nothing is counted between them. -/
inductive Passes : Machine → List Activity → Machine → Prop where
  | done {machine next : Machine} (silent : Silent machine next) : Passes machine [] next
  | stage {machine next last : Machine} {stage : Activity} {stages : List Activity}
      (silent : Silent machine stage.machine) (ends : stage.machine? = some next)
      (passes : Passes next stages last) : Passes machine (stage :: stages) last

theorem passes_silent {machine next last : Machine} {stages : List Activity}
    (silent : Silent machine next) (passes : Passes next stages last) :
    Passes machine stages last := by
  cases passes with
  | done silent' => exact .done (silent_trans silent silent')
  | stage silent' ends passes => exact .stage (silent_trans silent silent') ends passes

/-- The computation counts nothing, and a failure of it is a new one. -/
structure Still {α : Type} (body : Eval α) : Prop where
  silent : ∀ machine after, (body machine).machine? = some after → Silent machine after
  fresh : ∀ machine failure, (body machine).failure? = some failure → failure.IsFresh

section

variable {α β : Type}

/-- The computation ends on the machine that the change leads to. -/
theorem still_ended {body : Eval α} {change : Machine → Machine}
    (reason : Machine → Option Failure)
    (ends : ∀ machine, (body machine).ending = some (reason machine, change machine))
    (silent : ∀ machine, Silent machine (change machine))
    (fresh : ∀ machine failure, reason machine = some failure → failure.IsFresh) :
    Still body := by
  constructor
  · intro machine after ends'
    rw [Outcome.machine_ending, ends machine] at ends'
    cases ends'
    exact silent machine
  · intro machine failure fails
    unfold Outcome.failure? at fails
    rw [ends machine] at fails
    exact fresh machine failure fails

theorem still_done {body : Eval α} {change : Machine → Machine}
    (ends : ∀ machine, (body machine).ending = some (none, change machine))
    (silent : ∀ machine, Silent machine (change machine)) : Still body := by
  refine still_ended (fun _ => none) ends silent ?_
  rintro machine failure ⟨⟩

theorem still_pure (value : α) : Still (Eval.pure value) :=
  still_done (fun _ => rfl) silent_refl

theorem still_fail {failure : Failure} (fresh : failure.IsFresh) :
    Still (Eval.fail failure : Eval α) := by
  refine still_ended (fun _ => some failure) (fun _ => rfl) silent_refl ?_
  rintro machine other ⟨⟩
  exact fresh

theorem still_bind {first : Eval α} {rest : α → Eval β} (still : Still first)
    (goes : ∀ value, Still (rest value)) : Still (Eval.bind first rest) := by
  constructor
  · intro machine after ends
    have silent := still.silent machine
    unfold Eval.bind at ends
    cases ended : first machine with
    | done value middle =>
        rw [ended] at ends silent
        exact silent_trans (silent middle rfl) ((goes value).silent middle after ends)
    | failed failure middle =>
        rw [ended] at ends silent
        cases ends
        exact silent after rfl
    | exhausted =>
        rw [ended] at ends
        cases ends
  · intro machine failure fails
    have fresh := still.fresh machine
    unfold Eval.bind at fails
    cases ended : first machine with
    | done value middle =>
        rw [ended] at fails
        exact (goes value).fresh middle failure fails
    | failed failure' middle =>
        rw [ended] at fails fresh
        exact fresh failure fails
    | exhausted =>
        rw [ended] at fails
        cases fails

end

/-- The activity has the stages still before it, and the outcome behind them. -/
structure Leads {α : Type} (activity : Activity) (machine : Machine) (stages : List Activity)
    (outcome : Outcome α) : Prop where
  entered : ∀ stage ∈ stages, Enters activity stage
  passes : ∀ after, outcome.machine? = some after → Passes machine stages after
  relays : ∀ stage ∈ stages, ∀ failure, stage.failure? = some failure →
    outcome.failure? = activity.outlet failure
  raises : (∀ stage ∈ stages, stage.failure? = none) →
    ∀ failure, outcome.failure? = some failure → failure.IsFresh

/-- A failure leaves the activity as it is. -/
def Activity.Plain (activity : Activity) : Prop :=
  ∀ failure, activity.outlet failure = some failure

section

variable {α β : Type} {activity stage : Activity} {machine next : Machine}

theorem leads_still {body : Eval α} (still : Still body) :
    Leads activity machine [] (body machine) where
  entered := by rintro stage ⟨⟩
  passes after ends := .done (still.silent machine after ends)
  relays := by rintro stage ⟨⟩
  raises _ := still.fresh machine

theorem leads_exhaust : Leads activity machine [] (.exhausted : Outcome α) where
  entered := by rintro stage ⟨⟩
  passes := by rintro after ⟨⟩
  relays := by rintro stage ⟨⟩
  raises := by rintro _ failure ⟨⟩

/-- A change that counts nothing comes first. -/
theorem leads_silent {stages : List Activity} {outcome : Outcome α} (silent : Silent machine next)
    (leads : Leads activity next stages outcome) : Leads activity machine stages outcome :=
  { leads with passes := fun after ends => passes_silent silent (leads.passes after ends) }

theorem leads_step {first : Eval α} {rest : α → Eval β} {stages : List Activity} {value : α}
    (step : first machine = .done value next) (silent : Silent machine next)
    (leads : Leads activity next stages (rest value next)) :
    Leads activity machine stages (Eval.bind first rest machine) := by
  rw [bind_given step]
  exact leads_silent silent leads

/-- With the last stage the activity ends, on what it makes of the failure of the stage. -/
theorem leads_through {outcome : Outcome α} (change : Failure → Option Failure)
    (leave : Machine → Machine) (enters : Enters activity stage)
    (starts : Silent machine stage.machine)
    (same : outcome.ending = stage.ending.map fun ended => (ended.1.bind change, leave ended.2))
    (makes : ∀ failure, activity.outlet failure = change failure)
    (silent : ∀ machine, Silent machine (leave machine)) :
    Leads activity machine [stage] outcome := by
  have failure : outcome.failure? = stage.failure?.bind change := by
    unfold Outcome.failure? Activity.failure?
    rw [same]
    cases stage.ending <;> rfl
  constructor
  · intro other member
    cases List.mem_singleton.mp member
    exact enters
  · intro last ends
    rw [Outcome.machine_ending, same] at ends
    cases ended : stage.ending with
    | some ending =>
        obtain ⟨reason, after⟩ := ending
        rw [ended] at ends
        cases ends
        exact .stage starts (Activity.machine_ended ended) (.done (silent after))
    | none =>
        rw [ended] at ends
        cases ends
  · intro other member reason fails
    cases List.mem_singleton.mp member
    rw [failure, fails, makes]
    rfl
  · intro quiet reason fails
    rw [failure, quiet stage List.mem_cons_self] at fails
    cases fails

/-- The last stage has the outcome of the whole activity. -/
theorem leads_last {outcome : Outcome α} (enters : Enters activity stage)
    (starts : Silent machine stage.machine) (same : stage.ending = outcome.ending)
    (plain : activity.Plain) :
    Leads activity machine [stage] outcome := by
  refine leads_through some (fun machine => machine) enters starts ?_ plain silent_refl
  rw [same]
  cases outcome <;> rfl

/-- The activity goes on behind a stage that does not fail. -/
theorem leads_behind {outcome : Outcome α} {stages : List Activity} (enters : Enters activity stage)
    (starts : Silent machine stage.machine) (ended : stage.ending = some (none, next))
    (behind : Leads activity next stages outcome) :
    Leads activity machine (stage :: stages) outcome where
  entered := by
    intro other member
    rcases List.mem_cons.mp member with rfl | member
    · exact enters
    · exact behind.entered other member
  passes last ends := .stage starts (Activity.machine_ended ended) (behind.passes last ends)
  relays := by
    intro other member failure fails
    rcases List.mem_cons.mp member with rfl | member
    · cases (Activity.failure_ended ended).symm.trans fails
    · exact behind.relays other member failure fails
  raises quiet := behind.raises fun other member => quiet other (List.mem_cons_of_mem _ member)

theorem leads_bind {first : Eval α} {rest : α → Eval β} {list : α → Machine → List Activity}
    (enters : Enters activity stage) (starts : Silent machine stage.machine)
    (same : stage.ending = (first machine).ending) (plain : activity.Plain)
    (goes : ∀ value after, first machine = .done value after →
      Leads activity after (list value after) (rest value after)) :
    Leads activity machine (stage :: (first machine).behind list)
      (Eval.bind first rest machine) := by
  unfold Eval.bind Outcome.behind
  cases ended : first machine with
  | done value after =>
      rw [ended] at same
      exact leads_behind enters starts same (goes value after ended)
  | failed | exhausted =>
      rw [ended] at same
      exact leads_last enters starts same plain

/-- Behind the only stage nothing is counted. -/
theorem leads_only {first : Eval α} {rest : α → Eval β} (enters : Enters activity stage)
    (starts : Silent machine stage.machine) (same : stage.ending = (first machine).ending)
    (plain : activity.Plain) (goes : ∀ value, Still (rest value)) :
    Leads activity machine [stage] (Eval.bind first rest machine) := by
  have leads := leads_bind enters starts same plain fun value (after : Machine) _ =>
    show Leads activity after [] _ from leads_still (goes value)
  have none : (first machine).behind (fun _ _ => ([] : List Activity)) = [] := by
    cases first machine <;> rfl
  rwa [none] at leads

end

/-! Values that have to be of a certain type. -/

theorem bind_assoc {α β γ : Type} (first : Eval α) (second : α → Eval β) (third : β → Eval γ) :
    Eval.bind (Eval.bind first second) third =
      Eval.bind first fun value => Eval.bind (second value) third := by
  funext machine
  unfold Eval.bind
  cases first machine <;> rfl

/-- The demand is met by a value, or the value is misused. -/
def Demands {γ : Type} (demand : Value → Eval γ) : Prop :=
  ∀ value, (∃ given, demand value = Eval.pure given) ∨
    ∃ place, demand value = Eval.misuse place value

theorem demands_still {γ : Type} {demand : Value → Eval γ} (demands : Demands demand)
    (value : Value) : Still (demand value) := by
  rcases demands value with ⟨given, met⟩ | ⟨place, missed⟩
  · rw [met]
    exact still_pure given
  · rw [missed]
    exact still_fail rfl

/-- A demand on the value of a stage. -/
theorem leads_demand {β γ : Type} {activity stage : Activity} {machine : Machine}
    {first : Eval Value} {demand : Value → Eval γ} {rest : γ → Eval β}
    {list : γ → Machine → List Activity} (demands : Demands demand)
    (enters : Enters activity stage) (starts : Silent machine stage.machine)
    (same : stage.ending = (first machine).ending) (plain : activity.Plain)
    (goes : ∀ value given after, first machine = .done value after →
      demand value after = .done given after → Leads activity after (list given after)
        (rest given after)) :
    Leads activity machine (stage :: (Eval.bind first demand machine).behind list)
      (Eval.bind first (fun value => Eval.bind (demand value) rest) machine) := by
  unfold Eval.bind Outcome.behind
  cases ended : first machine with
  | done value after =>
      rw [ended] at same
      rcases demands value with ⟨given, met⟩ | ⟨place, missed⟩
      · simp only [met]
        exact leads_behind enters starts same (goes value given after ended (by rw [met]; rfl))
      · simp only [missed]
        have misused : Still (Eval.misuse place value : Eval β) := still_fail rfl
        exact leads_behind enters starts same (leads_still misused)
  | failed | exhausted =>
      rw [ended] at same
      exact leads_last enters starts same plain

theorem requireTable_demands : Demands requireTable := by
  intro value
  cases value with
  | table id => exact .inl ⟨id, rfl⟩
  | _ => exact .inr ⟨.index, rfl⟩

theorem requireKey_demands : Demands requireKey := by
  intro value
  unfold requireKey
  cases value.toKey? with
  | some key => exact .inl ⟨key, rfl⟩
  | none => exact .inr ⟨.index, rfl⟩

theorem requireNumber_demands (place : Misuse) : Demands (requireNumber place) := by
  intro value
  cases value with
  | number x => exact .inl ⟨x, rfl⟩
  | _ => exact .inr ⟨place, rfl⟩

theorem read_still (value : Value) (key : Key) :
    Still (Eval.bind (requireTable value) fun id => readTable id key) :=
  still_bind (demands_still requireTable_demands value) fun _ =>
    still_done (fun _ => rfl) silent_refl

theorem readKey_still (id : Nat) (value : Value) :
    Still (Eval.bind (requireKey value) fun key => readTable id key) :=
  still_bind (demands_still requireKey_demands value) fun _ =>
    still_done (fun _ => rfl) silent_refl

theorem write_still {α : Type} (id : Nat) (key : Key) (value : Value) (result : α) :
    Still (Eval.bind (writeTable id key value) fun _ => Eval.pure result) :=
  still_bind (still_done (fun _ => rfl) fun _ => rfl) fun _ => still_pure result

theorem operate_still (operation : Operation) (lhs rhs : Value) :
    Still (operate operation lhs rhs) := by
  unfold operate
  cases binary operation lhs rhs with
  | ok value => exact still_pure value
  | error operand => exact still_fail rfl

theorem bindName_still (scope : Scope) (name : String) (value : Value) :
    Still (bindName scope name value) :=
  still_done (fun _ => rfl) fun _ => rfl

theorem assignName_still (scope : Scope) (name : String) (value : Value) :
    Still (assignName scope name value) := by
  unfold assignName
  by_cases bound : scope.has name
  · rw [if_pos bound]
    exact bindName_still scope name value
  · rw [if_neg bound]
    exact still_bind (still_done (fun _ => rfl) fun _ => rfl) fun _ => still_pure scope

variable {β : Type} {activity stage : Activity} {fuel : Nat} {scope : Scope} {machine : Machine}

theorem leads_table {target : Expression} {rest : Nat → Eval β}
    {list : Nat → Machine → List Activity}
    (enters : Enters activity stage) (starts : Silent machine stage.machine)
    (same : stage.ending = (giving fuel scope target machine).ending) (plain : activity.Plain)
    (goes : ∀ id after, Gives fuel scope machine target (.table id) after →
      Leads activity after (list id after) (rest id after)) :
    Leads activity machine (stage :: (givingTable fuel scope target machine).behind list)
      (Eval.bind (giving fuel scope target)
        (fun value => Eval.bind (requireTable value) rest) machine) := by
  refine leads_demand requireTable_demands enters starts same plain ?_
  intro value id after gives demanded
  cases value with
  | table =>
      cases demanded
      exact goes _ _ gives
  | _ => cases demanded

theorem leads_key {key : Expression} {rest : Key → Eval β} {list : Key → Machine → List Activity}
    (enters : Enters activity stage) (starts : Silent machine stage.machine)
    (same : stage.ending = (giving fuel scope key machine).ending) (plain : activity.Plain)
    (goes : ∀ value stored after, Gives fuel scope machine key value after →
      value.toKey? = some stored → Leads activity after (list stored after) (rest stored after)) :
    Leads activity machine (stage :: (givingKey fuel scope key machine).behind list)
      (Eval.bind (giving fuel scope key)
        (fun value => Eval.bind (requireKey value) rest) machine) := by
  refine leads_demand requireKey_demands enters starts same plain ?_
  intro value stored after gives demanded
  unfold requireKey at demanded
  cases stands : value.toKey? with
  | some key =>
      rw [stands] at demanded
      cases demanded
      exact goes _ _ _ gives stands
  | none =>
      rw [stands] at demanded
      cases demanded

theorem leads_number {place : Misuse} {expression : Expression} {rest : Float → Eval β}
    {list : Float → Machine → List Activity}
    (enters : Enters activity stage) (starts : Silent machine stage.machine)
    (same : stage.ending = (giving fuel scope expression machine).ending) (plain : activity.Plain)
    (goes : ∀ x after, Gives fuel scope machine expression (.number x) after →
      Leads activity after (list x after) (rest x after)) :
    Leads activity machine (stage :: (givingNumber fuel scope place expression machine).behind list)
      (Eval.bind (giving fuel scope expression)
        (fun value => Eval.bind (requireNumber place value) rest) machine) := by
  refine leads_demand (requireNumber_demands place) enters starts same plain ?_
  intro value x after gives demanded
  cases value with
  | number =>
      cases demanded
      exact goes _ _ gives
  | _ => cases demanded

/-! Expressions. -/

variable {outer : List Scope}

theorem expression_leads (expression : Expression) :
    Leads (inside fuel scope outer machine (.evaluate expression)) machine
      (expressionStages fuel scope outer machine expression)
      (evaluate (apply fuel) fuel scope expression machine) := by
  have plain : (inside fuel scope outer machine (.evaluate expression)).Plain := fun _ => rfl
  cases expression with
  | number | string | boolean | nil => exact leads_still (still_pure _)
  | name name => exact leads_still (still_done (fun _ => rfl) silent_refl)
  | function parameters body => exact leads_still (still_done (fun _ => rfl) fun _ => rfl)
  | strayStatement | strayField => exact leads_still (still_fail True.intro)
  | table fields =>
      rw [evaluate]
      exact leads_step rfl rfl (leads_only (.part .fields) rfl rfl plain fun _ => still_pure _)
  | binary lhs operation rhs =>
      refine leads_bind (.part .lhs) rfl rfl plain ?_
      intro left between gives
      exact leads_only (.part (.rhs gives)) rfl rfl plain fun right =>
        operate_still operation left right
  | call callee arguments =>
      refine leads_bind (.part .callee) rfl rfl plain ?_
      intro value called gives
      cases value with
      | function id =>
          refine leads_bind (.part (.arguments gives)) rfl rfl plain ?_
          intro values after given
          exact leads_last (.call gives given) rfl rfl plain
      | _ => exact leads_still (still_fail rfl)
  | dot target name =>
      exact leads_only (.part .dotted) rfl rfl plain fun value => read_still value (.name name)
  | index target key =>
      refine leads_table (.part .indexed) rfl rfl plain ?_
      intro id between gives
      exact leads_only (.part (.key gives)) rfl rfl plain fun value => readKey_still id value

theorem list_leads (expressions : List Expression) :
    Leads (inside fuel scope outer machine (.evaluateAll expressions)) machine
      (listStages fuel scope outer machine expressions)
      (evaluateAll (apply fuel) fuel scope expressions machine) := by
  have plain : (inside fuel scope outer machine (.evaluateAll expressions)).Plain := fun _ => rfl
  cases expressions with
  | nil => exact leads_still (still_pure _)
  | cons first others =>
      refine leads_bind (.part .first) rfl rfl plain ?_
      intro value after gives
      exact leads_only (.part (.others gives)) rfl rfl plain fun values => still_pure _

theorem field_leads (id position : Nat) (fields : List Field) :
    Leads (inside fuel scope outer machine (.fill id position fields)) machine
      (fieldStages fuel scope outer id position machine fields)
      (fillTable (apply fuel) fuel scope id position fields machine) := by
  have plain : (inside fuel scope outer machine (.fill id position fields)).Plain := fun _ => rfl
  cases fields with
  | nil => exact leads_still (still_pure _)
  | cons field others =>
      cases field with
      | positional value =>
          refine leads_bind (.part .positional) rfl rfl plain ?_
          intro given after gives
          exact leads_last (.part (.afterPositional gives)) rfl rfl plain
      | named name value =>
          refine leads_bind (.part .named) rfl rfl plain ?_
          intro given after gives
          exact leads_last (.part (.afterNamed gives)) rfl rfl plain
      | keyed key value =>
          refine leads_key (.part .fieldKey) rfl rfl plain ?_
          intro asked stored between gives stands
          refine leads_bind (.part (.keyed gives stands)) rfl rfl plain ?_
          intro given after gives'
          exact leads_last (.part (.afterKeyed gives stands gives')) rfl rfl plain

/-! Statements. -/

theorem branch_leads {condition : Expression} {body : Block} {others : List Branch}
    {otherwise : Option Block} {behind : Eval Flow}
    (asks : Enters activity (inside fuel scope outer machine (.evaluate condition)))
    (chosen : ∀ value after, Gives fuel scope machine condition value after → value.isTruthy →
      Enters activity (inside fuel scope outer after (.executeBlock body)))
    (passed : ∀ value after, Gives fuel scope machine condition value after → ¬ value.isTruthy →
      Enters activity (inside fuel scope outer after (.executeBranches otherwise others)))
    (same : ∀ after, (inside fuel scope outer after (.executeBranches otherwise others)).ending =
      (behind after).ending)
    (plain : activity.Plain) :
    Leads activity machine (branchStages fuel scope outer body others otherwise machine condition)
      (Eval.bind (giving fuel scope condition) (fun value =>
        if value.isTruthy then executeBlock (apply fuel) fuel scope body else behind) machine) := by
  refine leads_bind asks rfl rfl plain ?_
  intro value after gives
  by_cases truthy : value.isTruthy
  · rw [if_pos truthy, if_pos truthy]
    exact leads_last (chosen value after gives truthy) rfl rfl plain
  · rw [if_neg truthy, if_neg truthy]
    exact leads_last (passed value after gives truthy) rfl (same after) plain

theorem branches_leads (otherwise : Option Block) (branches : List Branch) :
    Leads (inside fuel scope outer machine (.executeBranches otherwise branches)) machine
      (branchesStages fuel scope outer machine otherwise branches)
      (executeBranches (apply fuel) fuel scope (executeOtherwise (apply fuel) fuel scope otherwise)
        branches machine) := by
  have plain : (inside fuel scope outer machine (.executeBranches otherwise branches)).Plain :=
    fun _ => rfl
  cases branches with
  | nil =>
      cases otherwise with
      | none => exact leads_still (still_pure _)
      | some body => exact leads_last (.part .otherwise) rfl rfl plain
  | cons branch others =>
      obtain ⟨condition, body⟩ := branch
      apply branch_leads (.part .nextCondition)
      · exact fun value after gives truthy => .part (.nextChosen gives truthy)
      · exact fun value after gives falsy => .part (.nextPassed gives falsy)
      · exact fun after => rfl
      · exact plain

theorem begun_leads {α : Type} {stages : List Activity} {summary : String} {rest : Unit → Eval α}
    (leads : Leads activity (machine.begin summary) stages (rest () (machine.begin summary))) :
    Leads activity (machine.begin summary) stages
      (Eval.bind (Eval.modify fun machine => machine.begin summary) rest machine) :=
  leads

theorem assign_leads {statement : Statement} {target value : Expression}
    (assigns : statement = .assign target value) :
    Leads (inside fuel scope outer machine (.execute statement)) (machine.begin statement.summary)
      (statementStages fuel scope outer (machine.begin statement.summary) statement)
      (execute (apply fuel) fuel scope statement machine) := by
  have plain : (inside fuel scope outer machine (.execute statement)).Plain := fun _ => rfl
  subst assigns
  rw [execute]
  apply begun_leads
  refine leads_bind (.part .assigned) rfl rfl plain ?_
  intro given between gives
  cases target with
  | name name =>
      exact leads_still (still_bind (assignName_still _ _ _) fun _ => still_pure _)
  | dot target name =>
      refine leads_only (.part (.dotTarget gives)) rfl rfl plain fun value => ?_
      exact still_bind (demands_still requireTable_demands value) fun _ =>
        write_still _ _ _ _
  | index target key =>
      refine leads_table (.part (.indexTarget gives)) rfl rfl plain ?_
      intro id middle gives'
      refine leads_only (.part (.indexKey gives gives')) rfl rfl plain fun value => ?_
      exact still_bind (demands_still requireKey_demands value) fun _ =>
        write_still _ _ _ _
  | _ => exact leads_still (still_fail True.intro)

theorem loop_leads {statement : Statement} {counter : String} {start limit : Expression}
    {step : Option Expression} {body : Block}
    (loops : statement = .loop counter start limit step body) :
    Leads (inside fuel scope outer machine (.execute statement)) (machine.begin statement.summary)
      (statementStages fuel scope outer (machine.begin statement.summary) statement)
      (execute (apply fuel) fuel scope statement machine) := by
  have plain : (inside fuel scope outer machine (.execute statement)).Plain := fun _ => rfl
  subst loops
  rw [execute]
  apply begun_leads
  refine leads_number (.part .start) rfl rfl plain ?_
  intro first started gives
  refine leads_number (.part (.limit gives)) rfl rfl plain ?_
  intro last limited gives'
  cases step with
  | none =>
      refine leads_step rfl rfl
        (leads_only (.loop (.byOne gives gives')) rfl rfl plain fun flow => ?_)
      cases flow <;> exact still_pure _
  | some step =>
      refine leads_number (.part (.step gives gives')) rfl rfl plain ?_
      intro width after gives''
      refine leads_only (.loop (.byStep gives gives' gives'')) rfl rfl plain fun flow => ?_
      cases flow <;> exact still_pure _

/-- The stages of a statement come behind its counting. -/
theorem statement_leads (statement : Statement) :
    Leads (inside fuel scope outer machine (.execute statement)) (machine.begin statement.summary)
      (statementStages fuel scope outer (machine.begin statement.summary) statement)
      (execute (apply fuel) fuel scope statement machine) := by
  have plain : (inside fuel scope outer machine (.execute statement)).Plain := fun _ => rfl
  cases statement with
  | assign target value => exact assign_leads rfl
  | declare name value =>
      rw [execute]
      apply begun_leads
      exact leads_only (.part .declared) rfl rfl plain fun value =>
        still_bind (bindName_still _ _ _) fun _ => still_pure _
  | evaluate expression =>
      rw [execute]
      apply begun_leads
      exact leads_only (.part .evaluated) rfl rfl plain fun value => still_pure _
  | returns value =>
      rw [execute]
      apply begun_leads
      exact leads_only (.part .returned) rfl rfl plain fun value => still_pure _
  | function name parameters body =>
      rw [execute]
      apply begun_leads
      apply leads_still
      refine still_bind (still_done (fun _ => rfl) fun _ => rfl) fun function => ?_
      exact still_bind (still_done (fun _ => rfl) fun _ => rfl) fun _ => still_pure _
  | choose first others otherwise =>
      obtain ⟨condition, body⟩ := first
      rw [execute_choose]
      apply begun_leads
      apply branch_leads (.part .condition)
      · exact fun value after gives truthy => .part (.chosen gives truthy)
      · exact fun value after gives falsy => .part (.passed gives falsy)
      · exact fun after => rfl
      · exact plain
  | loop counter start limit step body => exact loop_leads rfl
  | strayExpression | strayField =>
      rw [execute]
      exact begun_leads (leads_still (still_fail True.intro))

theorem block_leads (statements : Block) :
    Leads (inside fuel scope outer machine (.executeBlock statements)) machine
      (blockStages fuel scope outer machine statements)
      (executeBlock (apply fuel) fuel scope statements machine) := by
  have plain : (inside fuel scope outer machine (.executeBlock statements)).Plain := fun _ => rfl
  cases statements with
  | nil => exact leads_still (still_pure _)
  | cons first others =>
      refine leads_bind (.part .statement) rfl rfl plain ?_
      intro flow after executed
      cases flow with
      | next next => exact leads_last (.following executed) rfl rfl plain
      | result value => exact leads_still (still_pure _)

theorem round_leads (body : Block) (name : String) (limit step counter : Float) (bound : Nat) :
    Leads (inside fuel scope outer machine (.rounds body name limit step bound counter)) machine
      (roundStages fuel scope outer body name limit step machine counter bound)
      (rounds (fun scope => executeBlock (apply fuel) fuel scope body) name limit step bound counter
        scope machine) := by
  have plain : (inside fuel scope outer machine
      (.rounds body name limit step bound counter)).Plain := fun _ => rfl
  cases bound with
  | zero => exact leads_exhaust
  | succ bound =>
      rw [rounds, roundStages]
      by_cases more : counter ≤ limit
      · rw [if_pos more, if_pos more]
        refine leads_step rfl rfl (leads_bind (.round more) rfl rfl plain ?_)
        intro flow after executed
        cases flow with
        | next next => exact leads_last (.nextRound more executed) rfl rfl plain
        | result value => exact leads_still (still_pure _)
      · rw [if_neg more, if_neg more]
        exact leads_still (still_pure _)

/-! Calls. -/

theorem plain_silent (value : Value) (machine : Machine) :
    Silent machine (Display.plain value machine).2 := by
  cases value with
  | table | function =>
      simp only [Display.plain, Machine.address]
      split <;> rfl
  | _ => exact silent_refl machine

theorem plainAll_silent (values : List Value) (machine : Machine) :
    Silent machine (Display.plainAll values machine).2 := by
  induction values generalizing machine with
  | nil => exact silent_refl machine
  | cons value rest ih => exact silent_trans (plain_silent value machine) (ih _)

theorem recordAll_silent (arguments : List Value) (machine : Machine) :
    Silent machine (Native.recordAll arguments machine) := by
  unfold Native.recordAll
  induction arguments generalizing machine with
  | nil => exact silent_refl machine
  | cons value rest ih => exact silent_trans (emit_silent machine rfl) (ih _)

theorem printedLine_silent (arguments : List Value) (machine : Machine) :
    Silent machine (Native.printedLine arguments machine) :=
  silent_trans (plainAll_silent arguments machine) (emit_silent _ rfl)

theorem modify_still {α : Type} {change : Machine → Machine} (result : α)
    (silent : ∀ machine, Silent machine (change machine)) :
    Still (Eval.bind (Eval.modify change) fun _ => Eval.pure result) :=
  still_bind (still_done (fun _ => rfl) silent) fun _ => still_pure result

theorem unsuitable_still {α : Type} : Still (Native.unsuitable : Eval α) :=
  still_fail True.intro

theorem tostring_still (call : Caller) (arguments : List Value) :
    Still (Native.tostring.run call arguments) := by
  have shown : Still (Eval.update (Display.plain (Native.firstArgument arguments))) :=
    still_done (fun _ => rfl) fun machine => plain_silent _ machine
  exact still_bind shown fun text => still_pure _

theorem setKey_still (call : Caller) (arguments : List Value) :
    Still (Native.setKey.run call arguments) := by
  simp only [Native.run]
  split
  · next key value _ =>
      cases key.toKey? with
      | some key => exact modify_still _ fun _ => rfl
      | none => exact still_fail rfl
  · exact unsuitable_still

theorem sum_still (call : Caller) (arguments : List Value) :
    Still (Native.sum.run call arguments) := by
  simp only [Native.run]
  cases Native.total? 0 arguments with
  | some result => exact still_pure _
  | none => exact unsuitable_still

theorem apply_ending (fuel : Nat) (machine : Machine) (scopes : List Scope) (function : Value)
    (arguments : List Value) :
    (⟨fuel, machine, scopes, .apply function arguments⟩ : Activity).ending =
      (apply fuel function arguments machine).ending := by
  cases scopes <;> rfl

theorem recover_ending (body : Eval Value) (handle : Failure → Value) (machine : Machine) :
    (Eval.recover body handle machine).ending = (body machine).ending.map fun ended =>
      (ended.1.bind fun failure => if failure.isMisuse then none else some failure, ended.2) := by
  unfold Eval.recover
  cases body machine with
  | failed failure after =>
      by_cases misuse : failure.isMisuse <;> simp [misuse, Outcome.ending]
  | done | exhausted => rfl

theorem finish_ending {α : Type} (body : Eval Flow) (failure : Failure → Failure)
    (leave : Machine → Machine) (result : Flow → α) (machine : Machine) :
    (Eval.bind (Eval.finish body failure leave) (fun flow => Eval.pure (result flow))
      machine).ending = (body machine).ending.map fun ended =>
        (ended.1.bind fun reason => some (failure reason), leave ended.2) := by
  unfold Eval.bind Eval.finish
  cases body machine <;> rfl

/-- The native passes on the failures of what it calls. -/
theorem native_plain {scopes : List Scope} {id : Nat} {name : String} {native : Native}
    (found : machine.callable id = .native name native) (lets : native ≠ .attempt)
    (arguments : List Value) :
    (⟨fuel, machine, scopes, .apply (.function id) arguments⟩ : Activity).Plain := by
  intro failure
  simp only [Activity.outlet, found]

theorem native_leads {scopes : List Scope} {id : Nat} {name : String} {native : Native}
    (found : machine.callable id = .native name native) (arguments : List Value) :
    Leads ⟨fuel + 1, machine, scopes, .apply (.function id) arguments⟩ machine
      (nativeStages fuel machine scopes native arguments)
      (native.run (apply fuel) arguments machine) := by
  cases native with
  | print => exact leads_still (modify_still _ fun machine => printedLine_silent arguments machine)
  | record => exact leads_still (modify_still _ fun machine => recordAll_silent arguments machine)
  | tostring => exact leads_still (tostring_still _ arguments)
  | type | idle => exact leads_still (still_pure _)
  | fail => exact leads_still (still_fail True.intro)
  | setKey => exact leads_still (setKey_still _ arguments)
  | sum => exact leads_still (sum_still _ arguments)
  | twice =>
      rcases arguments with _ | ⟨function, _ | ⟨value, rest⟩⟩
      · exact leads_still unsuitable_still
      · exact leads_still unsuitable_still
      · have plain : (⟨fuel + 1, machine, scopes,
            .apply (.function id) (function :: value :: rest)⟩ : Activity).Plain :=
          native_plain found nofun _
        refine leads_bind (.once found) rfl (apply_ending ..) plain ?_
        intro result after applied
        exact leads_last (.twice found applied) rfl (apply_ending ..) plain
  | attempt =>
      cases arguments with
      | nil => exact leads_still unsuitable_still
      | cons function others =>
          refine leads_through (fun failure => if failure.isMisuse then none else some failure)
            (fun machine => machine) (.attempt found) rfl ?_ ?_ silent_refl
          · rw [apply_ending]
            exact recover_ending _ _ _
          · intro failure
            simp only [Activity.outlet, found]

theorem call_leads {scopes : List Scope} (function : Value) (arguments : List Value) :
    Leads ⟨fuel, machine, scopes, .apply function arguments⟩ machine
      (callStages machine scopes arguments fuel function)
      (apply fuel function arguments machine) := by
  cases fuel with
  | zero => exact leads_exhaust
  | succ fuel =>
      cases function with
      | function id =>
          rw [apply, callStages]
          apply leads_step (rfl : Eval.read _ machine = _) (silent_refl machine)
          cases found : machine.callable id with
          | native name native => exact native_leads found arguments
          | closure closure =>
              apply leads_step (rfl : enter closure arguments machine = _) rfl
              -- What is changed when the function is left is not counted.
              refine leads_through (fun failure => some (failure.leaving closure.errorName))
                (fun machine => { machine with depth := machine.depth - 1 })
                (.activation found rfl) rfl (finish_ending _ _ _ _ _) ?_ fun _ => rfl
              intro failure
              simp only [Activity.outlet, found]
      | _ => exact leads_still (still_fail rfl)

/-- The stages of an activity are just what it enters. If it ends it has passed them all, and its
failure is what it makes of the failure of a stage, or else a new one. -/
structure Staged (activity : Activity) : Prop where
  entered : ∀ inner, Enters activity inner ↔ inner ∈ activity.stages
  passes : ∀ after, activity.machine? = some after →
    Passes activity.begun activity.stages after
  relays : ∀ inner, Enters activity inner → ∀ failure, inner.failure? = some failure →
    activity.failure? = activity.outlet failure
  raises : (∀ inner, Enters activity inner → inner.failure? = none) →
    ∀ failure, activity.failure? = some failure → failure.IsFresh

theorem leads_staged {α : Type} {activity : Activity} {outcome : Outcome α}
    (leads : Leads activity activity.begun activity.stages outcome)
    (same : activity.ending = outcome.ending) : Staged activity := by
  have failure : activity.failure? = outcome.failure? := congrArg (·.bind Prod.fst) same
  constructor
  · exact fun inner => ⟨enters_stage, leads.entered inner⟩
  · intro after ends
    rw [Activity.machine_ending, same, ← Outcome.machine_ending] at ends
    exact leads.passes after ends
  · intro inner enters reason fails
    rw [failure]
    exact leads.relays inner (enters_stage enters) reason fails
  · intro quiet reason fails
    rw [failure] at fails
    exact leads.raises (fun stage member => quiet stage (leads.entered stage member)) reason fails

theorem activity_staged {activity : Activity} {after : Machine}
    (ends : activity.machine? = some after) : Staged activity := by
  obtain ⟨fuel, machine, scopes, task⟩ := activity
  cases scopes with
  | nil =>
      cases task with
      | apply function arguments => exact leads_staged (call_leads function arguments) rfl
      | _ => cases ends
  | cons scope outer =>
      cases task with
      | evaluate expression => exact leads_staged (expression_leads expression) rfl
      | evaluateAll expressions => exact leads_staged (list_leads expressions) rfl
      | fill id position fields => exact leads_staged (field_leads id position fields) rfl
      | execute statement => exact leads_staged (statement_leads statement) rfl
      | executeBlock statements => exact leads_staged (block_leads statements) rfl
      | executeBranches otherwise branches =>
          exact leads_staged (branches_leads otherwise branches) rfl
      | rounds body name limit step bound counter =>
          exact leads_staged (round_leads body name limit step counter bound) rfl
      | apply function arguments => exact leads_staged (call_leads function arguments) rfl

end LuaCore
