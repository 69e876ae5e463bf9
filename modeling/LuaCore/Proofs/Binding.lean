import LuaCore.Proofs.Activity

/-!
Binding maps: what a run does to the scopes that there are. The scopes in use keep their bindings,
but for the one that statements run in, which gets the locals of these at its end. The global scope
gets names at its end, too, those of the declarations and assignments that are executed. What a
function has captured stays as it is.
-/

namespace LuaCore

open Evaluation

/-! Names that statements bind in the scope that they run in. -/

mutual

/-- The locals of a statement. Loops and functions have scopes of their own. -/
def Statement.locals : Statement → List String
  | .declare name _ => [name]
  | .choose first others otherwise =>
      first.locals ++ (Branch.allLocals others ++ Block.locals? otherwise)
  | _ => []

def Branch.locals : Branch → List String
  | .mk _ body => Block.locals body

def Branch.allLocals : List Branch → List String
  | [] => []
  | branch :: rest => branch.locals ++ Branch.allLocals rest

def Block.locals : List Statement → List String
  | [] => []
  | statement :: rest => statement.locals ++ Block.locals rest

def Block.locals? : Option (List Statement) → List String
  | none => []
  | some body => Block.locals body

end

namespace Task

/-- The names that a task can bind in its scope. -/
def locals : Task → List String
  | execute statement => statement.locals
  | executeBlock statements => Block.locals statements
  | executeBranches otherwise branches => Branch.allLocals branches ++ Block.locals? otherwise
  | rounds body name _ _ _ _ => name :: Block.locals body
  | _ => []

/-- The name that a task by itself can bind globally. -/
def global? : Task → Option String
  | execute (.assign (.name name) _) => some name
  | execute (.function name _ _) => some name
  | _ => none

end Task

/-! Scopes that grow. -/

/-- The later scope has further bindings behind those of the earlier one, under certain names. -/
def Scope.Extends (names : String → Prop) (scope later : Scope) : Prop :=
  ∃ added, later.bindings = scope.bindings ++ added ∧ ∀ binding ∈ added, names binding.1

/-- The scopes are the same, but for the first one, which may have further bindings. -/
inductive Grown (names : String → Prop) : List Scope → List Scope → Prop where
  | refl (scopes : List Scope) : Grown names scopes scopes
  | first {scope later : Scope} {outer : List Scope} (extends' : scope.Extends names later) :
      Grown names (scope :: outer) (later :: outer)

section

variable {names further : String → Prop}

theorem extends_refl (scope : Scope) : scope.Extends names scope :=
  ⟨[], (List.append_nil _).symm, by rintro binding ⟨⟩⟩

theorem extends_trans {scope middle later : Scope} (first : scope.Extends names middle)
    (second : middle.Extends names later) : scope.Extends names later := by
  obtain ⟨added, same, named⟩ := first
  obtain ⟨added', same', named'⟩ := second
  refine ⟨added ++ added', by rw [same', same, List.append_assoc], ?_⟩
  intro binding member
  rcases List.mem_append.mp member with member | member
  · exact named binding member
  · exact named' binding member

theorem extends_mono {scope later : Scope} (within : ∀ name, names name → further name)
    (extends' : scope.Extends names later) : scope.Extends further later := by
  obtain ⟨added, same, named⟩ := extends'
  exact ⟨added, same, fun binding member => within _ (named binding member)⟩

/-- Putting a name leaves a scope as it is, or binds the name at its end. -/
theorem put_extends (scope : Scope) (cells : Cells) {name : String} (value : Value)
    (named : names name) : scope.Extends names (scope.put cells name value).1 := by
  rcases scope.put_cases cells name value with ⟨cell, _, same⟩ | ⟨_, same⟩
  · rw [same]
    exact extends_refl scope
  · rw [same]
    refine ⟨[(name, cells.size)], rfl, ?_⟩
    intro binding member
    cases List.mem_singleton.mp member
    exact named

theorem put_bound {scope : Scope} {name : String} (bound : scope.has name) (cells : Cells)
    (value : Value) : (scope.put cells name value).1 = scope := by
  unfold Scope.put
  cases found : scope.cell? name with
  | some cell => rfl
  | none =>
      rw [Scope.has, found] at bound
      cases bound

theorem grown_trans {scopes middle later : List Scope} (first : Grown names scopes middle)
    (second : Grown names middle later) : Grown names scopes later := by
  cases first with
  | refl => exact second
  | first extends' =>
      cases second with
      | refl => exact .first extends'
      | first extends'' => exact .first (extends_trans extends' extends'')

theorem grown_mono {scopes later : List Scope} (within : ∀ name, names name → further name)
    (grown : Grown names scopes later) : Grown further scopes later := by
  cases grown with
  | refl => exact .refl scopes
  | first extends' => exact .first (extends_mono within extends')

theorem grown_none {scopes later : List Scope} (grown : Grown (· ∈ []) scopes later) :
    later = scopes := by
  cases grown with
  | refl => rfl
  | first extends' =>
      obtain ⟨added, same, named⟩ := extends'
      cases List.eq_nil_iff_forall_not_mem.mpr fun binding member => nomatch named binding member
      rw [List.append_nil] at same
      congr 1
      exact congrArg Scope.mk same

theorem grown_outer {scope : Scope} {outer later : List Scope}
    (grown : Grown names (scope :: outer) later) : ∃ first, later = first :: outer := by
  cases grown with
  | refl => exact ⟨scope, rfl⟩
  | first => exact ⟨_, rfl⟩

end

/-! The scope that statements leave. -/

theorem done_bind {α β : Type} {first : Eval α} {next : α → Eval β} {machine after : Machine}
    {result : β} (done : Eval.bind first next machine = .done result after) :
    ∃ value middle, first machine = .done value middle ∧
      next value middle = .done result after := by
  unfold Eval.bind at done
  cases ended : first machine with
  | done value middle =>
      rw [ended] at done
      exact ⟨value, middle, rfl, done⟩
  | failed | exhausted =>
      rw [ended] at done
      cases done

section

variable {call : Caller} {fuel : Nat}

theorem assignName_extends {scope next : Scope} {name : String} {value : Value}
    {machine after : Machine} (done : assignName scope name value machine = .done next after) :
    next = scope := by
  unfold assignName at done
  by_cases bound : scope.has name
  · rw [if_pos bound] at done
    cases done
    exact put_bound bound _ _
  · rw [if_neg bound] at done
    cases done
    rfl

/-- A loop that ends without a result leaves the scope that it was started in. -/
theorem loop_scope {scope next : Scope} {ending : Eval Flow} {machine after : Machine}
    (done : (do
      match ← ending with
      | .next _ => return .next scope
      | .result value => return .result value : Eval Flow) machine = .done (.next next) after) :
    next = scope := by
  obtain ⟨flow, _, _, done⟩ := done_bind done
  cases flow with
  | next inner =>
      cases done
      rfl
  | result value => cases done

mutual

theorem execute_extends {statement : Statement} {scope next : Scope} {machine after : Machine}
    (done : execute call fuel scope statement machine = .done (.next next) after) :
    scope.Extends (· ∈ statement.locals) next := by
  unfold execute at done
  obtain ⟨_, begun, _, done⟩ := done_bind done
  cases statement with
  | assign target value =>
      obtain ⟨given, middle, _, done⟩ := done_bind done
      cases target with
      | name name =>
          obtain ⟨_, _, assigned, done⟩ := done_bind done
          cases done
          rw [assignName_extends assigned]
          exact extends_refl scope
      | dot target name =>
          obtain ⟨_, _, _, done⟩ := done_bind done
          obtain ⟨_, _, _, done⟩ := done_bind done
          obtain ⟨_, _, _, done⟩ := done_bind done
          cases done
          exact extends_refl scope
      | index target key =>
          obtain ⟨_, _, _, done⟩ := done_bind done
          obtain ⟨_, _, _, done⟩ := done_bind done
          obtain ⟨_, _, _, done⟩ := done_bind done
          obtain ⟨_, _, _, done⟩ := done_bind done
          obtain ⟨_, _, _, done⟩ := done_bind done
          cases done
          exact extends_refl scope
      | _ => cases done
  | declare name value =>
      obtain ⟨given, middle, _, done⟩ := done_bind done
      obtain ⟨_, _, bound, done⟩ := done_bind done
      cases bound
      cases done
      exact put_extends scope _ _ (List.mem_singleton.mpr rfl)
  | evaluate expression =>
      obtain ⟨_, _, _, done⟩ := done_bind done
      cases done
      exact extends_refl scope
  | returns value =>
      obtain ⟨_, _, _, done⟩ := done_bind done
      cases done
  | function name parameters body =>
      obtain ⟨_, _, _, done⟩ := done_bind done
      obtain ⟨_, _, _, done⟩ := done_bind done
      cases done
      exact extends_refl scope
  | choose first others otherwise =>
      obtain ⟨condition, body⟩ := first
      obtain ⟨value, middle, _, chosen⟩ := done_bind done
      by_cases truthy : value.isTruthy
      · rw [if_pos truthy] at chosen
        refine extends_mono ?_ (executeBlock_extends chosen)
        exact fun name member => List.mem_append_left _ member
      · rw [if_neg truthy] at chosen
        refine executeBranches_extends ?_ ?_ chosen
        · intro name member
          exact List.mem_append_right _ (List.mem_append_left _ member)
        · intro middle ended
          cases otherwise with
          | none =>
              cases ended
              exact extends_refl scope
          | some body =>
              refine extends_mono ?_ (executeBlock_extends ended)
              intro name member
              exact List.mem_append_right _ (List.mem_append_right _ member)
  | loop name start limit step body =>
      obtain ⟨_, _, _, done⟩ := done_bind done
      obtain ⟨_, _, _, done⟩ := done_bind done
      obtain ⟨_, _, _, done⟩ := done_bind done
      obtain ⟨_, _, _, done⟩ := done_bind done
      cases step with
      | none =>
          obtain ⟨_, _, _, done⟩ := done_bind done
          rw [loop_scope done]
          exact extends_refl scope
      | some step =>
          obtain ⟨_, _, _, done⟩ := done_bind done
          obtain ⟨_, _, _, done⟩ := done_bind done
          rw [loop_scope done]
          exact extends_refl scope
  | strayExpression | strayField => cases done

theorem executeBlock_extends {statements : List Statement} {scope next : Scope}
    {machine after : Machine}
    (done : executeBlock call fuel scope statements machine = .done (.next next) after) :
    scope.Extends (· ∈ Block.locals statements) next := by
  cases statements with
  | nil =>
      cases done
      exact extends_refl scope
  | cons statement rest =>
      obtain ⟨flow, middle, first, others⟩ := done_bind done
      cases flow with
      | result value => cases others
      | next inner =>
          refine extends_trans (extends_mono ?_ (execute_extends first))
            (extends_mono ?_ (executeBlock_extends others))
          · exact fun name member => List.mem_append_left _ member
          · exact fun name member => List.mem_append_right _ member

theorem executeBranches_extends {branches : List Branch} {otherwise : Eval Flow}
    {names : String → Prop} {scope next : Scope} {machine after : Machine}
    (within : ∀ name, name ∈ Branch.allLocals branches → names name)
    (last : ∀ {middle}, otherwise middle = .done (.next next) after → scope.Extends names next)
    (done : executeBranches call fuel scope otherwise branches machine =
      .done (.next next) after) :
    scope.Extends names next := by
  cases branches with
  | nil => exact last done
  | cons branch rest =>
      obtain ⟨condition, body⟩ := branch
      obtain ⟨value, middle, _, chosen⟩ := done_bind done
      by_cases truthy : value.isTruthy
      · rw [if_pos truthy] at chosen
        refine extends_mono ?_ (executeBlock_extends chosen)
        exact fun name member => within name (List.mem_append_left _ member)
      · rw [if_neg truthy] at chosen
        refine executeBranches_extends ?_ last chosen
        exact fun name member => within name (List.mem_append_right _ member)

end

end

/-! The scopes in use inside of a run. -/

/-- A part of a task can bind no more than the task can. -/
theorem part_locals {fuel : Nat} {scope : Scope} {machine after : Machine} {task inner : Task}
    (part : Part fuel scope machine task after inner) : inner.locals ⊆ task.locals := by
  cases part with
  | chosen => exact List.subset_append_left _ _
  | passed => exact List.subset_append_right _ _
  | nextChosen => exact List.subset_append_of_subset_left _ (List.subset_append_left _ _)
  | nextPassed =>
      exact List.append_subset.mpr ⟨List.subset_append_of_subset_left _
        (List.subset_append_right _ _), List.subset_append_right _ _⟩
  | statement => exact List.subset_append_left _ _
  | otherwise => exact List.Subset.refl _
  | _ => exact List.nil_subset _

/-- What is entered runs in the same scopes, the first of which may have grown by then, or in a new
scope in front of them. -/
theorem enters_scopes {first second : Activity} (enters : Enters first second) :
    (Grown (· ∈ first.task.locals) first.scopes second.scopes ∧
      second.task.locals ⊆ first.task.locals) ∨
    ∃ scope, second.scopes = scope :: first.scopes := by
  cases enters with
  | part part => exact .inl ⟨.refl _, part_locals part⟩
  | call | once | twice | attempt => exact .inl ⟨.refl _, List.nil_subset _⟩
  | following executed =>
      refine .inl ⟨.first (extends_mono ?_ (execute_extends executed)),
        List.subset_append_right _ _⟩
      exact fun name member => List.mem_append_left _ member
  | loop | activation => exact .inr ⟨_, rfl⟩
  | round inside =>
      refine .inl ⟨.first (put_extends _ _ _ List.mem_cons_self), ?_⟩
      exact fun name member => List.mem_cons_of_mem _ member
  | nextRound inside executed =>
      refine .inl ⟨.first ?_, List.Subset.refl _⟩
      refine extends_trans (put_extends _ _ _ List.mem_cons_self)
        (extends_mono ?_ (executeBlock_extends executed))
      exact fun name member => List.mem_cons_of_mem _ member

/-- Inside of a run there are new scopes in front of those that it started with. The first one of
these may have grown by its locals. -/
theorem visits_scopes {first last : Activity} (visits : Visits first last) :
    ∃ inner base, last.scopes = inner ++ base ∧
      Grown (· ∈ first.task.locals) first.scopes base ∧
      (inner = [] → last.task.locals ⊆ first.task.locals) := by
  induction visits with
  | refl => exact ⟨[], first.scopes, rfl, .refl _, fun _ => List.Subset.refl _⟩
  | step _ enters ih =>
      obtain ⟨inner, base, scopes, grown, locals⟩ := ih
      rcases enters_scopes enters with ⟨grown', locals'⟩ | ⟨scope, scopes'⟩
      · cases inner with
        | nil =>
            rw [show _ = base from scopes] at grown'
            have locals := locals rfl
            refine ⟨[], _, rfl, grown_trans grown (grown_mono ?_ grown'), fun _ => ?_⟩
            · exact fun name member => locals member
            · exact List.Subset.trans locals' locals
        | cons scope outer =>
            rw [scopes] at grown'
            obtain ⟨later, same⟩ := grown_outer grown'
            exact ⟨later :: outer, base, same, grown, nofun⟩
      · exact ⟨scope :: inner, base, by rw [scopes', scopes, List.cons_append], grown, nofun⟩

end LuaCore
