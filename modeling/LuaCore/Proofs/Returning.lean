import LuaCore.Proofs.Accounting

/-!
Returning: what the control flow of an activation does with a `return`. An activation is a run or
the body of a function, without the functions that it calls. If it executes a `return`, wherever
that stands in branches and loops, nothing else of it starts any more, and the value is the result.
As long as it executes none it leaves nothing out.
-/

namespace LuaCore

open Evaluation Activity

/-- The value that an outcome is. -/
def Outcome.value? {α : Type} : Outcome α → Option α
  | done value _ => some value
  | _ => none

theorem value_done {α : Type} {outcome : Outcome α} {value : α}
    (given : outcome.value? = some value) : ∃ after, outcome = .done value after := by
  cases outcome with
  | done result after =>
      cases given
      exact ⟨after, rfl⟩
  | failed | exhausted => cases given

/-- The tasks that control goes through: statements and blocks, branches and loops. -/
def Task.Controls : Task → Prop
  | .execute _ | .executeBlock _ | .executeBranches .. | .rounds .. => True
  | _ => False

namespace Activity

/-- How an activity that controls ends, if it ends without a failure. -/
def flow? : Activity → Option Flow
  | ⟨fuel, machine, scope :: _, .execute statement⟩ =>
      (Evaluation.execute (apply fuel) fuel scope statement machine).value?
  | ⟨fuel, machine, scope :: _, .executeBlock statements⟩ =>
      (Evaluation.executeBlock (apply fuel) fuel scope statements machine).value?
  | ⟨fuel, machine, scope :: _, .executeBranches otherwise branches⟩ =>
      (Evaluation.executeBranches (apply fuel) fuel scope
        (executeOtherwise (apply fuel) fuel scope otherwise) branches machine).value?
  | ⟨fuel, machine, scope :: _, .rounds body name limit step bound counter⟩ =>
      (Evaluation.rounds (fun scope => Evaluation.executeBlock (apply fuel) fuel scope body) name
        limit step bound counter scope machine).value?
  | _ => none

/-- The activity executes a `return`. -/
def IsReturn (activity : Activity) : Prop :=
  ∃ expression, activity.task = .execute (.returns expression)

/-- The activity executes a `return` of the value. -/
inductive Returns : Activity → Value → Prop where
  | mk {fuel : Nat} {machine after : Machine} {scope : Scope} {outer : List Scope}
      {expression : Expression} {value : Value}
      (gives : Gives fuel scope (machine.begin (Statement.returns expression).summary) expression
        value after) :
      Returns ⟨fuel, machine, scope :: outer, .execute (.returns expression)⟩ value

end Activity

/-- The stages go on to each other, and the last one can have a result. -/
inductive Chains : List Activity → Flow → Prop where
  | done (scope : Scope) : Chains [] (.next scope)
  | result {stage : Activity} {value : Value} (flows : stage.flow? = some (.result value)) :
      Chains [stage] (.result value)
  | next {stage : Activity} {stages : List Activity} {scope : Scope} {flow : Flow}
      (flows : stage.flow? = some (.next scope)) (chains : Chains stages flow) :
      Chains (stage :: stages) flow
  | evaluates {stage : Activity} {stages : List Activity} {flow : Flow}
      (other : ¬ stage.task.Controls) (chains : Chains stages flow) : Chains (stage :: stages) flow

section

variable {fuel : Nat} {scope : Scope} {outer : List Scope} {machine : Machine}

/-- The last of the stages decides. -/
theorem chains_last {stage : Activity} {flow : Flow} (flows : stage.flow? = some flow) :
    Chains [stage] flow := by
  cases flow with
  | next scope => exact .next flows (.done scope)
  | result value => exact .result flows

theorem branch_chains {condition : Expression} {body : Block} {others : List Branch}
    {otherwise : Option Block} {flow : Flow} {after : Machine}
    (ends : Eval.bind (giving fuel scope condition) (fun value =>
      if value.isTruthy then executeBlock (apply fuel) fuel scope body
      else executeBranches (apply fuel) fuel scope
        (executeOtherwise (apply fuel) fuel scope otherwise) others) machine = .done flow after) :
    Chains (branchStages fuel scope outer body others otherwise machine condition) flow := by
  obtain ⟨value, between, gives, goes⟩ := done_bind ends
  unfold branchStages
  rw [gives]
  refine .evaluates id (chains_last ?_)
  by_cases truthy : value.isTruthy
  · rw [if_pos truthy] at goes ⊢
    exact congrArg Outcome.value? goes
  · rw [if_neg truthy] at goes ⊢
    exact congrArg Outcome.value? goes

theorem number_done {place : Misuse} {expression : Expression} {β : Type} {rest : Float → Eval β}
    {result : β} {after : Machine}
    (ends : Eval.bind (giving fuel scope expression)
      (fun value => Eval.bind (requireNumber place value) rest) machine = .done result after) :
    ∃ x between, Gives fuel scope machine expression (.number x) between ∧
      rest x between = .done result after := by
  obtain ⟨value, between, gives, goes⟩ := done_bind ends
  obtain ⟨x, middle, demanded, goes⟩ := done_bind goes
  cases value with
  | number =>
      cases demanded
      exact ⟨x, between, gives, goes⟩
  | _ => cases demanded

/-- What the rounds of a loop have come to is what the loop comes to, behind it in its own scope. -/
def Flow.behind (scope : Scope) : Flow → Flow
  | next _ => next scope
  | result value => result value

theorem loop_done {counter : String} {start limit : Expression} {step : Option Expression}
    {body : Block} {flow : Flow} {after : Machine}
    (ends : execute (apply fuel) fuel scope (.loop counter start limit step body) machine =
      .done flow after) :
    ∃ first last width started turned,
      Counts fuel scope (machine.begin (Statement.loop counter start limit step body).summary) start
        limit step first last width started ∧
      rounds (fun scope => executeBlock (apply fuel) fuel scope body) counter last width fuel first
        scope started = .done turned after ∧
      flow = turned.behind scope := by
  rw [execute] at ends
  obtain ⟨_, _, ⟨⟩, counted⟩ := done_bind ends
  obtain ⟨first, started, gives, limiting⟩ := number_done counted
  obtain ⟨last, limited, gives', stepping⟩ := number_done limiting
  cases step with
  | none =>
      obtain ⟨_, _, ⟨⟩, turning⟩ := done_bind stepping
      obtain ⟨turned, _, ran, same⟩ := done_bind turning
      refine ⟨first, last, 1, limited, turned, .byOne gives gives', ?_⟩
      cases turned <;> (cases same; exact ⟨ran, rfl⟩)
  | some step =>
      obtain ⟨width, ready, gives'', turning⟩ := number_done stepping
      obtain ⟨turned, _, ran, same⟩ := done_bind turning
      refine ⟨first, last, width, ready, turned, .byStep gives gives' gives'', ?_⟩
      cases turned <;> (cases same; exact ⟨ran, rfl⟩)

theorem loop_chains {counter : String} {start limit : Expression} {step : Option Expression}
    {body : Block} {flow : Flow} {after : Machine}
    (ends : execute (apply fuel) fuel scope (.loop counter start limit step body) machine =
      .done flow after) :
    Chains (statementStages fuel scope outer
      (machine.begin (Statement.loop counter start limit step body).summary)
      (.loop counter start limit step body)) flow := by
  obtain ⟨first, last, width, started, turned, counts, ran, rfl⟩ := loop_done ends
  have turns : Chains [⟨fuel, started, scope :: scope :: outer,
      .rounds body counter last width fuel first⟩] (turned.behind scope) := by
    cases turned with
    | next inner => exact .next (congrArg Outcome.value? ran) (.done scope)
    | result value => exact .result (congrArg Outcome.value? ran)
  cases counts with
  | byOne gives gives' =>
      simp only [statementStages, number_given gives, number_given gives', Outcome.behind]
      exact .evaluates id (.evaluates id turns)
  | byStep gives gives' gives'' =>
      simp only [statementStages, number_given gives, number_given gives', number_given gives'',
        Outcome.behind]
      exact .evaluates id (.evaluates id (.evaluates id turns))

theorem evaluates_chains {stages : List Activity} (scope : Scope)
    (other : ∀ stage ∈ stages, ¬ stage.task.Controls) : Chains stages (.next scope) := by
  induction stages with
  | nil => exact .done scope
  | cons stage stages ih =>
      refine .evaluates (other stage List.mem_cons_self) (ih ?_)
      exact fun later member => other later (List.mem_cons_of_mem _ member)

theorem assign_next {target value : Expression} {flow : Flow} {after : Machine}
    (ends : execute (apply fuel) fuel scope (.assign target value) machine = .done flow after) :
    ∃ next, flow = .next next := by
  rw [execute] at ends
  obtain ⟨_, _, _, counted⟩ := done_bind ends
  obtain ⟨_, _, _, evaluated⟩ := done_bind counted
  cases target with
  | name name =>
      obtain ⟨next, _, _, ⟨⟩⟩ := done_bind evaluated
      exact ⟨next, rfl⟩
  | dot target name =>
      obtain ⟨_, _, _, targeted⟩ := done_bind evaluated
      obtain ⟨_, _, _, required⟩ := done_bind targeted
      obtain ⟨_, _, _, ⟨⟩⟩ := done_bind required
      exact ⟨scope, rfl⟩
  | index target key =>
      obtain ⟨_, _, _, targeted⟩ := done_bind evaluated
      obtain ⟨_, _, _, required⟩ := done_bind targeted
      obtain ⟨_, _, _, keyed⟩ := done_bind required
      obtain ⟨_, _, _, required⟩ := done_bind keyed
      obtain ⟨_, _, _, ⟨⟩⟩ := done_bind required
      exact ⟨scope, rfl⟩
  | _ => cases evaluated

/-- A statement that is no `return` goes on through its stages. -/
theorem statement_chains {statement : Statement} {flow : Flow} {after : Machine}
    (other : ∀ expression, statement ≠ .returns expression)
    (ends : execute (apply fuel) fuel scope statement machine = .done flow after) :
    Chains (statementStages fuel scope outer (machine.begin statement.summary) statement) flow := by
  cases statement with
  | loop => exact loop_chains ends
  | choose first others otherwise =>
      obtain ⟨condition, body⟩ := first
      rw [execute_choose] at ends
      exact branch_chains ends
  | returns expression => exact absurd rfl (other expression)
  | strayExpression | strayField =>
      rw [execute] at ends
      cases ends
  | function name parameters body =>
      rw [execute] at ends
      cases ends
      exact .done scope
  | declare name value =>
      rw [execute] at ends
      obtain ⟨_, _, _, evaluated⟩ := done_bind ends
      obtain ⟨_, _, _, bound⟩ := done_bind evaluated
      obtain ⟨_, _, _, ⟨⟩⟩ := done_bind bound
      exact .evaluates id (.done _)
  | evaluate expression =>
      rw [execute] at ends
      obtain ⟨_, _, _, evaluated⟩ := done_bind ends
      obtain ⟨_, _, _, ⟨⟩⟩ := done_bind evaluated
      exact .evaluates id (.done _)
  | assign target value =>
      obtain ⟨next, rfl⟩ := assign_next ends
      apply evaluates_chains
      intro stage member
      have enters := (statement_leads _).entered stage member
      cases enters with
      | part part => cases part <;> exact id

theorem block_chains {statements : Block} {flow : Flow} {after : Machine}
    (ends : executeBlock (apply fuel) fuel scope statements machine = .done flow after) :
    Chains (blockStages fuel scope outer machine statements) flow := by
  cases statements with
  | nil =>
      cases ends
      exact .done scope
  | cons first others =>
      obtain ⟨turned, between, executed, goes⟩ := done_bind ends
      simp only [blockStages, executed, Outcome.behind]
      cases turned with
      | next next =>
          exact .next (congrArg Outcome.value? executed)
            (chains_last (congrArg Outcome.value? goes))
      | result value =>
          cases goes
          exact .result (congrArg Outcome.value? executed)

theorem branches_chains {otherwise : Option Block} {branches : List Branch} {flow : Flow}
    {after : Machine}
    (ends : executeBranches (apply fuel) fuel scope
      (executeOtherwise (apply fuel) fuel scope otherwise) branches machine = .done flow after) :
    Chains (branchesStages fuel scope outer machine otherwise branches) flow := by
  cases branches with
  | nil =>
      cases otherwise with
      | none =>
          cases ends
          exact .done scope
      | some body => exact chains_last (congrArg Outcome.value? ends)
  | cons branch others =>
      obtain ⟨condition, body⟩ := branch
      exact branch_chains ends

theorem round_chains {body : Block} {name : String} {limit step counter : Float} {bound : Nat}
    {flow : Flow} {after : Machine}
    (ends : rounds (fun scope => executeBlock (apply fuel) fuel scope body) name limit step bound
      counter scope machine = .done flow after) :
    Chains (roundStages fuel scope outer body name limit step machine counter bound) flow := by
  cases bound with
  | zero => cases ends
  | succ bound =>
      rw [rounds] at ends
      rw [roundStages]
      by_cases more : counter ≤ limit
      · rw [if_pos more] at ends ⊢
        obtain ⟨_, _, ⟨⟩, bound⟩ := done_bind ends
        obtain ⟨turned, between, executed, goes⟩ := done_bind bound
        simp only [executed, Outcome.behind]
        cases turned with
        | next next =>
            exact .next (congrArg Outcome.value? executed)
              (chains_last (congrArg Outcome.value? goes))
        | result value =>
            cases goes
            exact .result (congrArg Outcome.value? executed)
      · rw [if_neg more] at ends ⊢
        cases ends
        exact .done scope

end

section

variable {first activity middle inner : Activity} {flow : Flow}

theorem flow_chains (flows : activity.flow? = some flow) (other : ¬ activity.IsReturn) :
    Chains activity.stages flow := by
  obtain ⟨fuel, machine, scopes, task⟩ := activity
  cases scopes with
  | nil => cases task <;> cases flows
  | cons scope outer =>
      cases task with
      | execute statement =>
          obtain ⟨after, ends⟩ := value_done flows
          exact statement_chains (fun expression same => other ⟨expression, congrArg _ same⟩) ends
      | executeBlock statements => exact block_chains (value_done flows).choose_spec
      | executeBranches otherwise branches => exact branches_chains (value_done flows).choose_spec
      | rounds body name limit step bound counter =>
          exact round_chains (value_done flows).choose_spec
      | _ => cases flows

theorem flow_ends (flows : activity.flow? = some flow) :
    ∃ after, activity.machine? = some after := by
  obtain ⟨fuel, machine, scopes, task⟩ := activity
  cases scopes with
  | nil => cases task <;> cases flows
  | cons scope outer =>
      cases task with
      | execute | executeBlock | executeBranches | rounds =>
          obtain ⟨after, ends⟩ := value_done flows
          exact ⟨after, congrArg Outcome.machine? ends⟩
      | _ => cases flows

/-! What an activation does itself. -/

theorem running_first (running : Running first [] inner) :
    inner = first ∨ ∃ stage, Enters first stage ∧ (∀ closure, ¬ Activates first closure stage) ∧
      Running stage [] inner := by
  generalize none : ([] : List Closure) = active at running
  induction running with
  | start => exact .inl rfl
  | activates => cases none
  | enters _ enters same ih =>
      subst none
      rcases ih rfl with rfl | ⟨stage, entered, same', running⟩
      · exact .inr ⟨_, enters, same, .start⟩
      · exact .inr ⟨stage, entered, same', .enters running enters same⟩

theorem running_trans {before active : List Closure} (running : Running first before middle)
    (running' : Running middle active inner) : Running first (active ++ before) inner := by
  induction running' with
  | start => exact running
  | enters _ enters same ih => exact .enters ih enters same
  | activates _ activates ih => exact .activates ih activates

theorem running_inside (enters : Enters first middle)
    (same : ∀ closure, ¬ Activates first closure middle) (running : Running middle [] inner) :
    Running first [] inner :=
  running_trans (.enters .start enters same) running

theorem running_visits {active : List Closure} (running : Running first active inner) :
    Visits first inner := by
  induction running with
  | start => exact .refl
  | enters _ enters _ ih => exact .step ih enters
  | activates _ activates ih =>
      cases activates with
      | body found enters => exact .step ih (.activation found enters)

/-- Control comes only from control, or from a call. -/
theorem enters_controls (enters : Enters first inner)
    (same : ∀ closure, ¬ Activates first closure inner) (controls : inner.task.Controls) :
    first.task.Controls := by
  cases enters with
  | part part => cases part <;> first | exact controls | exact True.intro
  | activation found enters => exact absurd (.body found enters) (same _)
  | call | once | twice | attempt => cases controls
  | following | loop | round | nextRound => exact True.intro

theorem running_controls (running : Running first [] inner) (controls : inner.task.Controls) :
    first.task.Controls := by
  generalize none : ([] : List Closure) = active at running
  induction running with
  | start => exact controls
  | activates => cases none
  | enters _ enters same ih => exact ih (enters_controls enters same controls) none

/-- A `return` only evaluates its expression. -/
theorem return_running (returns : first.IsReturn) (running : Running first [] inner)
    (controls : inner.task.Controls) : inner = first := by
  rcases running_first running with rfl | ⟨stage, enters, same, running⟩
  · rfl
  · obtain ⟨expression, returns⟩ := returns
    obtain ⟨fuel, machine, scopes, task⟩ := first
    cases returns
    cases enters with
    | part part =>
        cases part
        cases running_controls running controls

theorem return_flow (returns : activity.IsReturn) (flows : activity.flow? = some flow) :
    ∃ value, flow = .result value ∧ activity.Returns value := by
  obtain ⟨expression, returns⟩ := returns
  obtain ⟨fuel, machine, scopes, task⟩ := activity
  cases returns
  cases scopes with
  | nil => cases flows
  | cons scope outer =>
      obtain ⟨after, ends⟩ := value_done flows
      rw [execute] at ends
      obtain ⟨_, _, ⟨⟩, counted⟩ := done_bind ends
      obtain ⟨value, between, gives, ⟨⟩⟩ := done_bind counted
      exact ⟨value, rfl, .mk gives⟩

theorem controls_same (controls : first.task.Controls) (closure : Closure) :
    ¬ Activates first closure inner := by
  rintro ⟨found, enters⟩
  exact controls

theorem return_controls (returns : inner.IsReturn) : inner.task.Controls := by
  obtain ⟨expression, same⟩ := returns
  rw [same]
  exact True.intro

/-! The steps of what is done in between. -/

theorem passes_between {machine after : Machine} {stages : List Activity}
    (passes : Passes machine stages after) :
    machine.steps ≤ after.steps ∧ ∀ stage ∈ stages, machine.steps ≤ stage.machine.steps ∧
      ∃ last, stage.machine? = some last ∧ last.steps ≤ after.steps := by
  induction passes with
  | done silent =>
      obtain ⟨steps, _⟩ := silent_iff.mp silent
      exact ⟨Nat.le_of_eq steps.symm, nofun⟩
  | @stage machine next last stage stages silent ends _ ih =>
      obtain ⟨steps, _⟩ := silent_iff.mp silent
      have level := (ends_level ends).steps
      obtain ⟨later, others⟩ := ih
      refine ⟨by omega, ?_⟩
      intro other member
      rcases List.mem_cons.mp member with rfl | member
      · exact ⟨by omega, next, ends, later⟩
      · obtain ⟨starts, last, ends, less⟩ := others other member
        exact ⟨by omega, last, ends, less⟩

/-- What goes on in an activity that ends starts and ends in between. -/
theorem visits_between {after : Machine} (visits : Visits first inner)
    (ends : first.machine? = some after) :
    first.machine.steps ≤ inner.machine.steps ∧
      ∃ last, inner.machine? = some last ∧ last.steps ≤ after.steps := by
  induction visits with
  | refl => exact ⟨Nat.le_refl _, after, ends, Nat.le_refl _⟩
  | @step middle inner _ enters ih =>
      obtain ⟨starts, between, ended, less⟩ := ih
      have staged := activity_staged ended
      obtain ⟨_, stages⟩ := passes_between (staged.passes between ended)
      obtain ⟨begins, last, stops, less'⟩ := stages inner ((staged.entered inner).mp enters)
      have begun : middle.machine.steps ≤ middle.begun.steps := by
        rcases begun_numbered middle with ⟨_, numbered⟩ | ⟨_, numbered⟩ <;>
          (rw [numbered.steps]; omega)
      exact ⟨by omega, last, stops, by omega⟩

end

/-- The activity is done in the course of the first one, and in no function that is called there. -/
abbrev Does (first activity : Activity) : Prop :=
  Running first [] activity

/-- No `return` is executed, except by functions that are called. -/
def Returnless (first : Activity) : Prop :=
  ∀ inner, Does first inner → ¬ inner.IsReturn

/-- What is done has come to the flow. If a `return` is among it that is the last to start, with all
that is a part of it, and the flow is its value. -/
structure Conducts (does : Activity → Prop) (flow : Flow) : Prop where
  returned : ∀ inner, does inner → inner.IsReturn → ∃ value, flow = .result value ∧
    inner.Returns value ∧
    ∀ other, does other → Does inner other ∨ other.machine.steps ≤ inner.machine.steps
  fallen : (∀ inner, does inner → ¬ inner.IsReturn) → ∃ scope, flow = .next scope

section

variable {first activity inner stage : Activity} {stages : List Activity} {flow : Flow}
  {machine after : Machine}

/-- What is done in any of the stages. -/
abbrev DoesAny (stages : List Activity) (inner : Activity) : Prop :=
  ∃ stage ∈ stages, Does stage inner

theorem conducts_behind (silent : Returnless stage)
    (passes : Passes machine (stage :: stages) after) (conducts : Conducts (DoesAny stages) flow) :
    Conducts (DoesAny (stage :: stages)) flow := by
  cases passes with
  | @stage _ next _ _ _ _ ends passes =>
      constructor
      · rintro inner ⟨other, among, does⟩ returns
        rcases List.mem_cons.mp among with rfl | behind
        · exact absurd returns (silent inner does)
        · obtain ⟨value, same, returned, last⟩ :=
            conducts.returned inner ⟨other, behind, does⟩ returns
          refine ⟨value, same, returned, ?_⟩
          rintro early ⟨before, among', does'⟩
          rcases List.mem_cons.mp among' with rfl | behind'
          · -- All of the stage is over before the `return` starts.
            obtain ⟨_, past, ended, less⟩ := visits_between (running_visits does') ends
            have early := (ends_level ended).steps
            obtain ⟨begins, later, ended', _⟩ := (passes_between passes).2 other behind
            have late := (visits_between (running_visits does) ended').1
            exact .inr (by omega)
          · exact last early ⟨before, behind', does'⟩
      · intro returnless
        apply conducts.fallen
        rintro inner ⟨other, behind, does⟩
        exact returnless inner ⟨other, List.mem_cons_of_mem _ behind, does⟩

/-- A stage that goes on has no `return`. -/
theorem next_returnless {scope : Scope} (conducts : Conducts (Does stage) (.next scope)) :
    Returnless stage := by
  intro inner does returns
  obtain ⟨value, ⟨⟩, _⟩ := conducts.returned inner does returns

theorem evaluates_returnless (other : ¬ stage.task.Controls) : Returnless stage :=
  fun _ does returns => other (running_controls does (return_controls returns))

theorem conducts_single (conducts : Conducts (Does stage) flow) :
    Conducts (DoesAny [stage]) flow := by
  have only (inner : Activity) : DoesAny [stage] inner ↔ Does stage inner := by
    constructor
    · rintro ⟨other, member, does⟩
      cases List.mem_singleton.mp member
      exact does
    · exact fun does => ⟨stage, List.mem_cons_self, does⟩
  rw [show DoesAny [stage] = Does stage from funext fun inner => propext (only inner)]
  exact conducts

theorem chains_conducts (chains : Chains stages flow) (passes : Passes machine stages after)
    (parts : ∀ stage ∈ stages, ∀ flow, stage.flow? = some flow → Conducts (Does stage) flow) :
    Conducts (DoesAny stages) flow := by
  induction chains generalizing machine with
  | done scope =>
      constructor
      · rintro inner ⟨stage, ⟨⟩, _⟩
      · exact fun _ => ⟨scope, rfl⟩
  | @result stage value flows => exact conducts_single (parts stage List.mem_cons_self _ flows)
  | @next stage stages scope flow flows _ ih =>
      refine conducts_behind (next_returnless (parts stage List.mem_cons_self _ flows)) passes ?_
      cases passes with
      | stage _ _ passes =>
          exact ih passes fun other member => parts other (List.mem_cons_of_mem _ member)
  | @evaluates stage stages flow other _ ih =>
      refine conducts_behind (evaluates_returnless other) passes ?_
      cases passes with
      | stage _ _ passes =>
          exact ih passes fun other member => parts other (List.mem_cons_of_mem _ member)

/-- What an activity does that controls: itself, or something in one of its stages. -/
theorem does_stages (controls : activity.task.Controls) (staged : Staged activity) :
    Does activity inner ↔ inner = activity ∨ DoesAny activity.stages inner := by
  constructor
  · intro does
    rcases running_first does with same | ⟨stage, enters, _, does⟩
    · exact .inl same
    · exact .inr ⟨stage, (staged.entered stage).mp enters, does⟩
  · rintro (rfl | ⟨stage, member, does⟩)
    · exact .start
    · exact running_inside ((staged.entered stage).mpr member) (controls_same controls) does

theorem flow_controls (flows : activity.flow? = some flow) : activity.task.Controls := by
  obtain ⟨fuel, machine, scopes, task⟩ := activity
  cases task with
  | execute | executeBlock | executeBranches | rounds => exact True.intro
  | _ => cases scopes <;> cases flows

theorem flow_conducts (flows : activity.flow? = some flow) : Conducts (Does activity) flow := by
  induction activity using enters_induction generalizing flow with
  | step activity ih =>
      have controls := flow_controls flows
      obtain ⟨after, ends⟩ := flow_ends flows
      by_cases returns : activity.IsReturn
      · obtain ⟨value, rfl, returned⟩ := return_flow returns flows
        constructor
        · intro inner does returns'
          cases return_running returns does (return_controls returns')
          exact ⟨value, rfl, returned, fun other does => .inl does⟩
        · exact fun returnless => absurd returns (returnless activity .start)
      · have staged := activity_staged ends
        have conducts := chains_conducts (flow_chains flows returns) (staged.passes after ends)
          fun stage member flow flows => ih stage ((staged.entered stage).mpr member) flows
        constructor
        · intro inner does returns'
          rcases (does_stages controls staged).mp does with rfl | inside
          · exact absurd returns' returns
          · obtain ⟨value, same, returned, last⟩ := conducts.returned inner inside returns'
            refine ⟨value, same, returned, ?_⟩
            intro other does'
            rcases (does_stages controls staged).mp does' with rfl | inside'
            · exact .inr (visits_between (running_visits does) ends).1
            · exact last other inside'
        · intro returnless
          apply conducts.fallen
          intro inner inside
          exact returnless inner ((does_stages controls staged).mpr (.inr inside))

theorem chains_flows (chains : Chains stages flow) (member : stage ∈ stages)
    (controls : stage.task.Controls) : ∃ flow, stage.flow? = some flow := by
  induction chains with
  | done => cases member
  | result flows =>
      cases List.mem_singleton.mp member
      exact ⟨_, flows⟩
  | next flows _ ih =>
      rcases List.mem_cons.mp member with rfl | behind
      · exact ⟨_, flows⟩
      · exact ih behind
  | evaluates other _ ih =>
      rcases List.mem_cons.mp member with rfl | behind
      · exact absurd controls other
      · exact ih behind

/-- Nothing that an activity does itself fails if it does not fail itself. -/
theorem does_flows (flows : activity.flow? = some flow) (does : Running activity [] inner)
    (controls : inner.task.Controls) : ∃ flow, inner.flow? = some flow := by
  generalize none : ([] : List Closure) = active at does
  induction does with
  | start => exact ⟨flow, flows⟩
  | activates => cases none
  | @enters _ middle inner does enters same ih =>
      subst none
      obtain ⟨turned, flows'⟩ := ih (enters_controls enters same controls) rfl
      by_cases returns : middle.IsReturn
      · cases return_running returns (.enters .start enters same) controls
        exact ⟨turned, flows'⟩
      · exact chains_flows (flow_chains flows' returns) (enters_stage enters) controls

end

/-! Nothing is left out. -/

/-- The activity goes where control leads it: through all of each block, but for what stands behind
a `return` that was executed, into the branch that is chosen, and on with a loop to its limit. -/
structure Thorough (first : Activity) : Prop where
  statement : ∀ {fuel machine scope outer statement rest},
    Does first ⟨fuel, machine, scope :: outer, .executeBlock (statement :: rest)⟩ →
    Does first ⟨fuel, machine, scope :: outer, .execute statement⟩
  following : ∀ {fuel machine scope outer statement rest},
    Does first ⟨fuel, machine, scope :: outer, .executeBlock (statement :: rest)⟩ →
    Returnless ⟨fuel, machine, scope :: outer, .execute statement⟩ →
    ∃ next after, execute (apply fuel) fuel scope statement machine = .done (.next next) after ∧
      Does first ⟨fuel, after, next :: outer, .executeBlock rest⟩
  choice : ∀ {fuel machine scope outer condition body others otherwise},
    let statement : Statement := .choose (.mk condition body) others otherwise
    Does first ⟨fuel, machine, scope :: outer, .execute statement⟩ →
    ∃ value after, Gives fuel scope (machine.begin statement.summary) condition value after ∧
      Does first ⟨fuel, after, scope :: outer,
        if value.isTruthy then .executeBlock body else .executeBranches otherwise others⟩
  branch : ∀ {fuel machine scope outer condition body others otherwise},
    Does first ⟨fuel, machine, scope :: outer,
      .executeBranches otherwise (.mk condition body :: others)⟩ →
    ∃ value after, Gives fuel scope machine condition value after ∧
      Does first ⟨fuel, after, scope :: outer,
        if value.isTruthy then .executeBlock body else .executeBranches otherwise others⟩
  otherwise : ∀ {fuel machine scope outer body},
    Does first ⟨fuel, machine, scope :: outer, .executeBranches (some body) []⟩ →
    Does first ⟨fuel, machine, scope :: outer, .executeBlock body⟩
  loop : ∀ {fuel machine scope outer name start limit step body},
    let statement : Statement := .loop name start limit step body
    Does first ⟨fuel, machine, scope :: outer, .execute statement⟩ →
    ∃ begin last width after,
      Counts fuel scope (machine.begin statement.summary) start limit step begin last width after ∧
      Does first ⟨fuel, after, scope :: scope :: outer, .rounds body name last width fuel begin⟩
  round : ∀ {fuel machine scope outer body name limit step bound counter},
    Does first ⟨fuel, machine, scope :: outer, .rounds body name limit step bound counter⟩ →
    counter ≤ limit →
    let inside := scope.put machine.cells name (.number counter)
    let turn : Activity :=
      ⟨fuel, { machine with cells := inside.2 }, inside.1 :: outer, .executeBlock body⟩
    Does first turn ∧ (Returnless turn → ∃ next after less, turn.flow? = some (.next next) ∧
      turn.machine? = some after ∧
      Does first ⟨fuel, after, next :: outer, .rounds body name limit step less (counter + step)⟩)

section

variable {first activity inner : Activity} {flow : Flow}

theorem does_enters (does : Does first activity) (controls : activity.task.Controls)
    (enters : Enters activity inner) : Does first inner :=
  .enters does enters (controls_same controls)

/-- Control goes where a test sends it. -/
theorem does_either {fuel : Nat} {machine : Machine} {scopes : List Scope} {taken passed : Task}
    {test : Bool} (does : Does first activity) (controls : activity.task.Controls)
    (holds : test → Enters activity ⟨fuel, machine, scopes, taken⟩)
    (fails : ¬ test → Enters activity ⟨fuel, machine, scopes, passed⟩) :
    Does first ⟨fuel, machine, scopes, if test then taken else passed⟩ := by
  split
  · exact does_enters does controls (holds ‹_›)
  · exact does_enters does controls (fails ‹_›)

/-- Control goes on behind an activity without a `return`. -/
theorem does_next (flows : first.flow? = some flow) (does : Does first activity)
    (controls : activity.task.Controls) (returnless : Returnless activity) :
    ∃ scope, activity.flow? = some (.next scope) := by
  obtain ⟨turned, flows'⟩ := does_flows flows does controls
  obtain ⟨scope, rfl⟩ := (flow_conducts flows').fallen returnless
  exact ⟨scope, flows'⟩

theorem flow_thorough (flows : first.flow? = some flow) : Thorough first where
  statement does := does_enters does True.intro (.part .statement)
  following does returnless := by
    have does' := does_enters does True.intro (.part .statement)
    obtain ⟨next, goes⟩ := does_next flows does' True.intro returnless
    obtain ⟨after, executed⟩ := value_done goes
    exact ⟨next, after, executed, does_enters does True.intro (.following executed)⟩
  choice does := by
    obtain ⟨turned, flows'⟩ := does_flows flows does True.intro
    obtain ⟨after, ends⟩ := value_done flows'
    rw [execute_choose] at ends
    obtain ⟨_, _, ⟨⟩, counted⟩ := done_bind ends
    obtain ⟨value, between, gives, _⟩ := done_bind counted
    exact ⟨value, between, gives, does_either does True.intro
      (fun truthy => .part (.chosen gives truthy)) fun falsy => .part (.passed gives falsy)⟩
  branch does := by
    obtain ⟨turned, flows'⟩ := does_flows flows does True.intro
    obtain ⟨after, ends⟩ := value_done flows'
    obtain ⟨value, between, gives, _⟩ := done_bind ends
    exact ⟨value, between, gives, does_either does True.intro
      (fun truthy => .part (.nextChosen gives truthy)) fun falsy =>
        .part (.nextPassed gives falsy)⟩
  otherwise does := does_enters does True.intro (.part .otherwise)
  loop does := by
    obtain ⟨turned, flows'⟩ := does_flows flows does True.intro
    obtain ⟨after, ends⟩ := value_done flows'
    obtain ⟨begin, last, width, started, _, counts, _⟩ := loop_done ends
    exact ⟨begin, last, width, started, counts, does_enters does True.intro (.loop counts)⟩
  round {fuel machine scope outer body name limit step bound counter} does more := by
    obtain ⟨turned, flows'⟩ := does_flows flows does True.intro
    cases bound with
    | zero => cases flows'
    | succ less =>
        have does' := does_enters does True.intro (.round more)
        refine ⟨does', ?_⟩
        intro returnless
        obtain ⟨next, goes⟩ := does_next flows does' True.intro returnless
        obtain ⟨after, executed⟩ := value_done goes
        exact ⟨next, after, less, goes, congrArg Outcome.machine? executed,
          does_enters does True.intro (.nextRound more executed)⟩

end

/-! Activations. -/

/-- The activity is all that an activation does, of a run or of a function that is called, and the
outcome is that of the run or of the call. -/
inductive Activation : Activity → Outcome Value → Prop where
  | run (fuel : Nat) (program : Block) (machine : Machine) :
      Activation ⟨fuel, machine, [{}], .executeBlock program⟩ (run fuel program machine)
  | call {fuel id : Nat} {machine entered : Machine} {scope : Scope} {scopes : List Scope}
      {closure : Closure} {arguments : List Value} (found : machine.callable id = .closure closure)
      (enters : enter closure arguments machine = .done scope entered) :
      Activation ⟨fuel, entered, scope :: scopes, .executeBlock closure.body⟩
        (apply (fuel + 1) (.function id) arguments machine)

/-- The second activity is the last one to be started by the first one, but for its own parts. -/
structure IsLast (first inner : Activity) : Prop where
  statements : ∀ other, Does first other → other.IsExecution →
    other = inner ∨ other.machine.steps < inner.machine.steps
  parts : ∀ other, Does first other →
    Does inner other ∨ other.machine.steps ≤ inner.machine.steps

section

variable {first inner other : Activity} {outcome : Outcome Value} {value : Value}
  {after : Machine}

/-- Statements of one number are one execution. -/
theorem executions_same (ends : first.machine? = some after) (visits : Visits first inner)
    (visits' : Visits first other) (execution : inner.IsExecution) (execution' : other.IsExecution)
    (same : other.machine.steps = inner.machine.steps) : other = inner := by
  obtain ⟨executed, executions, _, numbered⟩ := executions_numbered ends
  have distinct : (executed.map fun inner => inner.machine.steps).Nodup := by
    rw [numbered.numbers]
    exact List.nodup_range'
  exact List.inj_on_of_nodup_map distinct ((executions.exact other).mpr ⟨visits', execution'⟩)
    ((executions.exact inner).mpr ⟨visits, execution⟩) same

theorem return_last (ends : first.machine? = some after) (does : Does first inner)
    (returns : inner.IsReturn)
    (parts : ∀ other, Does first other →
      Does inner other ∨ other.machine.steps ≤ inner.machine.steps) : IsLast first inner where
  parts := parts
  statements := by
    intro other does' execution
    obtain ⟨expression, return'⟩ := id returns
    rcases parts other does' with inside | early
    · obtain ⟨statement, executes⟩ := execution
      have controls : other.task.Controls := by
        rw [executes]
        exact True.intro
      exact .inl (return_running returns inside controls)
    · rcases Nat.lt_or_eq_of_le early with less | same
      · exact .inr less
      · exact .inl (executions_same ends (running_visits does) (running_visits does')
          ⟨_, return'⟩ execution same)

theorem activation_flow (activation : Activation first outcome)
    (ends : outcome = .done value after) :
    ∃ flow, first.flow? = some flow ∧ flow.value = value := by
  cases activation with
  | run fuel program machine =>
      obtain ⟨flow, _, ran, ⟨⟩⟩ := done_bind ends
      exact ⟨flow, congrArg Outcome.value? ran, rfl⟩
  | @call fuel id machine entered scope scopes closure arguments found enters =>
      rw [apply] at ends
      obtain ⟨callable, _, ⟨⟩, called⟩ := done_bind ends
      simp only [found] at called
      obtain ⟨_, _, entering, executing⟩ := done_bind called
      cases enters.symm.trans entering
      obtain ⟨flow, _, finished, ⟨⟩⟩ := done_bind executing
      unfold Eval.finish at finished
      refine ⟨flow, ?_, rfl⟩
      change (executeBlock (apply fuel) fuel scope closure.body _).value? = some flow
      cases ran : executeBlock (apply fuel) fuel scope closure.body _ with
      | done turned past =>
          rw [ran] at finished
          cases finished
          rfl
      | failed | exhausted =>
          rw [ran] at finished
          cases finished

end

/-- If an activation that ends with a value executes a `return` itself, in whatever branches and
loops, this is the last that it does, and the value is the one returned. If it executes none the
value is nil. In any case it leaves out nothing but what stands behind its own `return`, so that a
`return` in a function that it calls ends nothing else. -/
theorem return_ends_activation {first : Activity} {outcome : Outcome Value} {value : Value}
    {after : Machine} (activation : Activation first outcome)
    (ends : outcome = .done value after) :
    (∀ inner, Does first inner → inner.IsReturn → inner.Returns value ∧ IsLast first inner) ∧
    (Returnless first → value = .nil) ∧ Thorough first := by
  obtain ⟨flow, flows, rfl⟩ := activation_flow activation ends
  obtain ⟨last, ended⟩ := flow_ends flows
  have conducts := flow_conducts flows
  refine ⟨?_, ?_, flow_thorough flows⟩
  · intro inner does returns
    obtain ⟨value, rfl, returned, parts⟩ := conducts.returned inner does returns
    exact ⟨returned, return_last ended does returns parts⟩
  · intro returnless
    obtain ⟨scope, rfl⟩ := conducts.fallen returnless
    rfl

/-- False is returned out of a branch in a loop. The function that returned before did not end the
run, and the statements behind the loop and behind the branch are not executed. -/
theorem return_ends_activation_loop :
    let program : Block := [.function "f" [] [.returns .nil], .evaluate (.call (.name "f") []),
      .loop "i" (.number 1) (.number 2) none
        [.choose (.mk (.boolean true) [.returns (.boolean false)]) [] none, .evaluate .nil],
      .evaluate .nil]
    let first : Activity := ⟨3, {}, [{}], .executeBlock program⟩
    ∃ after, Activation first (run 3 program {}) ∧
      run 3 program {} = .done (.boolean false) after ∧ after.steps = 6 ∧
      (∀ inner, Does first inner → inner.IsReturn →
        inner.Returns (.boolean false) ∧ IsLast first inner) ∧
      (Returnless first → (.boolean false : Value) = .nil) ∧ Thorough first := by
  intro program first
  have activation : Activation first (run 3 program {}) := .run 3 program {}
  have ends : run 3 program {} = .done (.boolean false) _ := rfl
  exact ⟨_, activation, ends, rfl, return_ends_activation activation ends⟩

end LuaCore
