import LuaCore.Proofs.Mirroring
import LuaCore.Proofs.Negating
import LuaCore.Proofs.Stages

/-!
Numbers in place of names. Two programs may differ in what stands behind minus signs: a number in
the one, and a name for it in the other. Both are parsed to different trees, as the signs belong to
the number in the one and are computed in the other.
-/

namespace LuaCore

open Evaluation

/-! Programs with numbers in place of names. -/

section

variable (constants : String → Option Float)

mutual

/-- The expressions are the same, but that on the left numbers may stand behind minus signs where
names for them stand on the right. -/
inductive Expression.Settles : Expression → Expression → Prop where
  | settled {name : String} {value : Float} (known : constants name = some value) (signs : Nat) :
      Expression.Settles (Expression.negate^[signs + 1] (.number value))
        (Expression.negate^[signs + 1] (.name name))
  | number (value : Float) : Expression.Settles (.number value) (.number value)
  | string (value : String) : Expression.Settles (.string value) (.string value)
  | boolean (value : Bool) : Expression.Settles (.boolean value) (.boolean value)
  | nil : Expression.Settles .nil .nil
  | name (name : String) : Expression.Settles (.name name) (.name name)
  | table {fields fields' : List Field} (settles : List.Forall₂ Field.Settles fields fields') :
      Expression.Settles (.table fields) (.table fields')
  | binary {lhs lhs' rhs rhs' : Expression} (operation : Operation)
      (left : Expression.Settles lhs lhs') (right : Expression.Settles rhs rhs') :
      Expression.Settles (.binary lhs operation rhs) (.binary lhs' operation rhs')
  | call {callee callee' : Expression} {arguments arguments' : List Expression}
      (called : Expression.Settles callee callee')
      (given : List.Forall₂ Expression.Settles arguments arguments') :
      Expression.Settles (.call callee arguments) (.call callee' arguments')
  | dot {target target' : Expression} (name : String)
      (settles : Expression.Settles target target') :
      Expression.Settles (.dot target name) (.dot target' name)
  | index {target target' key key' : Expression} (settles : Expression.Settles target target')
      (asked : Expression.Settles key key') :
      Expression.Settles (.index target key) (.index target' key')
  | function {body body' : Block} (parameters : List String)
      (settles : List.Forall₂ Statement.Settles body body') :
      Expression.Settles (.function parameters body) (.function parameters body')
  | strayStatement (statement : Statement) :
      Expression.Settles (.strayStatement statement) (.strayStatement statement)
  | strayField (field : Field) : Expression.Settles (.strayField field) (.strayField field)

/-- Nothing is assigned to a number, so that minus signs can only stand inside of a target. -/
inductive Expression.Aims : Expression → Expression → Prop where
  | name (name : String) : Expression.Aims (.name name) (.name name)
  | dot {target target' : Expression} (name : String)
      (settles : Expression.Settles target target') :
      Expression.Aims (.dot target name) (.dot target' name)
  | index {target target' key key' : Expression} (settles : Expression.Settles target target')
      (asked : Expression.Settles key key') :
      Expression.Aims (.index target key) (.index target' key')
  | stray {target : Expression} (stray : target.isTarget = false) : Expression.Aims target target

inductive Field.Settles : Field → Field → Prop where
  | positional {value value' : Expression} (settles : Expression.Settles value value') :
      Field.Settles (.positional value) (.positional value')
  | named {value value' : Expression} (name : String)
      (settles : Expression.Settles value value') :
      Field.Settles (.named name value) (.named name value')
  | keyed {key key' value value' : Expression} (asked : Expression.Settles key key')
      (settles : Expression.Settles value value') :
      Field.Settles (.keyed key value) (.keyed key' value')

inductive Branch.Settles : Branch → Branch → Prop where
  | mk {condition condition' : Expression} {body body' : Block}
      (asked : Expression.Settles condition condition')
      (settles : List.Forall₂ Statement.Settles body body') :
      Branch.Settles (.mk condition body) (.mk condition' body')

inductive Statement.Settles : Statement → Statement → Prop where
  | assign {target target' value value' : Expression} (aims : Expression.Aims target target')
      (settles : Expression.Settles value value') :
      Statement.Settles (.assign target value) (.assign target' value')
  | declare {value value' : Expression} (name : String)
      (settles : Expression.Settles value value') :
      Statement.Settles (.declare name value) (.declare name value')
  | evaluate {expression expression' : Expression}
      (settles : Expression.Settles expression expression') :
      Statement.Settles (.evaluate expression) (.evaluate expression')
  | returns {value value' : Expression} (settles : Expression.Settles value value') :
      Statement.Settles (.returns value) (.returns value')
  | function {body body' : Block} (name : String) (parameters : List String)
      (settles : List.Forall₂ Statement.Settles body body') :
      Statement.Settles (.function name parameters body) (.function name parameters body')
  | choose {first first' : Branch} {others others' : List Branch}
      {otherwise otherwise' : Option Block} (settles : Branch.Settles first first')
      (further : List.Forall₂ Branch.Settles others others')
      (last : Option.Rel (List.Forall₂ Statement.Settles) otherwise otherwise') :
      Statement.Settles (.choose first others otherwise) (.choose first' others' otherwise')
  | loop {start start' limit limit' : Expression} {step step' : Option Expression}
      {body body' : Block} (counter : String) (first : Expression.Settles start start')
      (last : Expression.Settles limit limit') (width : Option.Rel Expression.Settles step step')
      (settles : List.Forall₂ Statement.Settles body body') :
      Statement.Settles (.loop counter start limit step body)
        (.loop counter start' limit' step' body')
  | strayExpression (expression : Expression) :
      Statement.Settles (.strayExpression expression) (.strayExpression expression)
  | strayField (field : Field) : Statement.Settles (.strayField field) (.strayField field)

end

abbrev Block.Settles (body body' : Block) : Prop :=
  List.Forall₂ (Statement.Settles constants) body body'

mutual

theorem Expression.settles_refl : ∀ expression : Expression, expression.Settles constants expression
  | .number value => .number value
  | .string value => .string value
  | .boolean value => .boolean value
  | .nil => .nil
  | .name name => .name name
  | .table fields => .table (fields_refl fields)
  | .binary lhs operation rhs => .binary operation lhs.settles_refl rhs.settles_refl
  | .call callee arguments => .call callee.settles_refl (expressions_refl arguments)
  | .dot target name => .dot name target.settles_refl
  | .index target key => .index target.settles_refl key.settles_refl
  | .function parameters body => .function parameters (block_refl body)
  | .strayStatement statement => .strayStatement statement
  | .strayField field => .strayField field

theorem Expression.aims_refl : ∀ target : Expression, target.Aims constants target
  | .name name => .name name
  | .dot target name => .dot name target.settles_refl
  | .index target key => .index target.settles_refl key.settles_refl
  | .number _ | .string _ | .boolean _ | .nil | .table _ | .binary .. | .call .. | .function ..
  | .strayStatement _ | .strayField _ => .stray rfl

theorem expressions_refl : ∀ expressions : List Expression,
    List.Forall₂ (Expression.Settles constants) expressions expressions
  | [] => .nil
  | expression :: others => .cons expression.settles_refl (expressions_refl others)

theorem Field.settles_refl : ∀ field : Field, field.Settles constants field
  | .positional value => .positional value.settles_refl
  | .named name value => .named name value.settles_refl
  | .keyed key value => .keyed key.settles_refl value.settles_refl

theorem fields_refl : ∀ fields : List Field, List.Forall₂ (Field.Settles constants) fields fields
  | [] => .nil
  | field :: others => .cons field.settles_refl (fields_refl others)

theorem Branch.settles_refl : ∀ branch : Branch, branch.Settles constants branch
  | .mk condition body => .mk condition.settles_refl (block_refl body)

theorem branches_refl : ∀ branches : List Branch,
    List.Forall₂ (Branch.Settles constants) branches branches
  | [] => .nil
  | branch :: others => .cons branch.settles_refl (branches_refl others)

theorem Statement.settles_refl : ∀ statement : Statement, statement.Settles constants statement
  | .assign target value => .assign target.aims_refl value.settles_refl
  | .declare name value => .declare name value.settles_refl
  | .evaluate expression => .evaluate expression.settles_refl
  | .returns value => .returns value.settles_refl
  | .function name parameters body => .function name parameters (block_refl body)
  | .choose first others none => .choose first.settles_refl (branches_refl others) .none
  | .choose first others (some body) =>
      .choose first.settles_refl (branches_refl others) (.some (block_refl body))
  | .loop counter start limit none body =>
      .loop counter start.settles_refl limit.settles_refl .none (block_refl body)
  | .loop counter start limit (some step) body =>
      .loop counter start.settles_refl limit.settles_refl (.some step.settles_refl)
        (block_refl body)
  | .strayExpression expression => .strayExpression expression
  | .strayField field => .strayField field

theorem block_refl : ∀ body : Block, Block.Settles constants body body
  | [] => .nil
  | statement :: others => .cons statement.settles_refl (block_refl others)

end

end

variable {constants : String → Option Float}

/-! Stacks of minus signs. -/

theorem iterate_number (value : Float) (signs : Nat) :
    Expression.negate^[signs] (.number value) = .number (Neg.neg^[signs] value) := by
  induction signs with
  | zero => rfl
  | succ signs ih =>
      rw [Function.iterate_succ_apply', ih, Function.iterate_succ_apply']
      rfl

theorem iterate_name (name : String) (signs : Nat) :
    Expression.negate^[signs + 1] (.name name) =
      .binary (.number (-1)) .multiply (Expression.negate^[signs] (.name name)) := by
  induction signs with
  | zero => rfl
  | succ signs ih =>
      rw [Function.iterate_succ_apply', ih]
      rfl

theorem evaluate_iterate {call : Caller} {fuel : Nat} {scope : Scope} {expression : Expression}
    {machine after : Machine} {x : Float}
    (gives : evaluate call fuel scope expression machine = .done (.number x) after)
    (signs : Nat) : evaluate call fuel scope (Expression.negate^[signs] expression) machine =
      .done (.number (Neg.neg^[signs] x)) after := by
  induction signs with
  | zero => exact gives
  | succ signs ih =>
      rw [Function.iterate_succ_apply', evaluate_negate, Eval.bind, ih,
        Function.iterate_succ_apply']
      simp only [operate_minusOne]
      rfl

/-- The innermost sign is come to. -/
theorem visits_negation (fuel : Nat) (machine : Machine) (scope : Scope) (outer : List Scope)
    (name : String) (signs : Nat) :
    Visits ⟨fuel, machine, scope :: outer,
        .evaluate (Expression.negate^[signs + 1] (.name name))⟩
      ⟨fuel, machine, scope :: outer, .evaluate (Expression.name name).negate⟩ := by
  induction signs with
  | zero => exact .refl
  | succ signs ih =>
      rw [iterate_name]
      exact enters_visits (.part (.rhs rfl)) ih

/-! Machines with functions of such programs. -/

/-- The machines are the same, but for the bodies of their functions. -/
def Machine.Settles (constants : String → Option Float) (machine other : Machine) : Prop :=
  ∃ functions, other = { machine with functions := functions } ∧
    functions.size = machine.functions.size ∧
    ∀ id, Callable.Alike (Block.Settles constants) (machine.callable id) (other.callable id)

theorem Callable.alike_refl (callable : Callable) :
    callable.Alike (Block.Settles constants) callable := by
  cases callable with
  | closure closure => exact .closure (block_refl constants closure.body)
  | native name native => exact .native name native

theorem Machine.settles_refl (machine : Machine) : machine.Settles constants machine :=
  ⟨machine.functions, rfl, rfl, fun _ => Callable.alike_refl _⟩

theorem Failure.leaving_congr {failure failure' : Failure} (name : String)
    (same : failure = failure') : failure.leaving name = failure'.leaving name :=
  congrArg (Failure.leaving name) same

theorem Failure.misuse_congr {failure failure' : Failure} (same : failure = failure') :
    failure = failure' ∨ (failure.isMisuse = false ∧ failure'.isMisuse = false) :=
  .inl same

def Bond.settled (constants : String → Option Float) : Bond where
  machines := Machine.Settles constants
  failures := Eq
  bodies := Block.Settles constants
  places _ := True
  failures_refl := Eq.refl
  failures_leaving := Failure.leaving_congr
  failures_misuse := Failure.misuse_congr
  agrees := by
    rintro machine _ ⟨functions, rfl, -⟩
    exact ⟨rfl, rfl, rfl, rfl, rfl⟩
  callable := by
    rintro machine other id ⟨_, _, _, alike⟩
    exact alike id
  writeGlobals := by
    rintro machine _ globals ⟨functions, rfl, size, alike⟩
    exact ⟨functions, rfl, size, alike⟩
  writeCells := by
    rintro machine _ cells ⟨functions, rfl, size, alike⟩
    exact ⟨functions, rfl, size, alike⟩
  newTable := by
    rintro machine _ ⟨functions, rfl, size, alike⟩
    exact ⟨functions, rfl, size, alike⟩
  setTable := by
    rintro machine _ key id value ⟨functions, rfl, size, alike⟩ _
    exact ⟨functions, rfl, size, alike⟩
  newFunction := by
    rintro machine _ function function' ⟨functions, rfl, size, alike⟩ alike'
    refine ⟨size.symm, functions.push function', ?_, ?_, fun id => ?_⟩
    · simp only [Machine.newFunction]
    · simp only [Machine.newFunction, Array.size_push, size]
    · rw [Machine.callable_newFunction, Machine.callable_newFunction, size]
      split
      · exact alike'
      · exact alike id
  atDepth := by
    rintro machine _ depth ⟨functions, rfl, size, alike⟩
    exact ⟨functions, rfl, size, alike⟩
  address := by
    rintro machine _ addressed ⟨functions, rfl, size, alike⟩
    exact ⟨functions, rfl, size, alike⟩
  emit := by
    rintro machine _ event ⟨functions, rfl, size, alike⟩ _
    exact ⟨functions, rfl, size, alike⟩

theorem settles_begin {machine other : Machine} {summary summary' : String}
    (machines : machine.Settles constants other) (same : summary = summary') :
    (machine.begin summary).Settles constants (other.begin summary') := by
  obtain ⟨functions, rfl, size, alike⟩ := machines
  subst summary'
  by_cases verbose : 0 < machine.verbosity
  · simp only [Machine.begin, verbose, if_true]
    exact ⟨functions, rfl, size, alike⟩
  · simp only [Machine.begin, verbose, if_false]
    exact ⟨functions, rfl, size, alike⟩

theorem settles_summary {statement statement' : Statement}
    (settles : statement.Settles constants statement') :
    statement.summary = statement'.summary := by
  cases settles with
  | assign aims => cases aims <;> rfl
  | evaluate settles =>
      cases settles with
      | settled => rw [iterate_number, iterate_name]; rfl
      | call called given =>
          cases called with
          | settled => rw [iterate_number, iterate_name]; rfl
          | name => simp only [Statement.summary, evaluationSummary, given.length_eq]
          | _ => rfl
      | _ => rfl
  | choose _ further last =>
      cases last <;>
        simp only [Statement.summary, branchCount, further.length_eq, Option.isSome]
  | _ => rfl

end LuaCore
