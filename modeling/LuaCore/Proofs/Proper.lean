import LuaCore.Program.OfTree

/-!
Proper programs: without stray parts, and with targets that can be assigned to. The program of a
parse tree is always proper.
-/

namespace LuaCore

mutual

def Expression.Proper : Expression → Prop
  | .number _ | .string _ | .boolean _ | .nil | .name _ => True
  | .table fields => Field.AllProper fields
  | .binary lhs _ rhs => lhs.Proper ∧ rhs.Proper
  | .call callee arguments => callee.Proper ∧ Expression.AllProper arguments
  | .dot target _ => target.Proper
  | .index target key => target.Proper ∧ key.Proper
  | .function _ body => Statement.AllProper body
  | .strayStatement _ | .strayField _ => False

def Expression.AllProper : List Expression → Prop
  | [] => True
  | expression :: rest => expression.Proper ∧ Expression.AllProper rest

/-- An omitted expression is proper. -/
def Expression.Proper? : Option Expression → Prop
  | none => True
  | some expression => expression.Proper

def Field.Proper : Field → Prop
  | .positional value | .named _ value => value.Proper
  | .keyed key value => key.Proper ∧ value.Proper

def Field.AllProper : List Field → Prop
  | [] => True
  | field :: rest => field.Proper ∧ Field.AllProper rest

def Branch.Proper : Branch → Prop
  | .mk condition body => condition.Proper ∧ Statement.AllProper body

def Branch.AllProper : List Branch → Prop
  | [] => True
  | branch :: rest => branch.Proper ∧ Branch.AllProper rest

def Statement.Proper : Statement → Prop
  | .assign target value => target.isTarget ∧ target.Proper ∧ value.Proper
  | .declare _ value | .evaluate value | .returns value => value.Proper
  | .function _ _ body => Statement.AllProper body
  | .choose first others otherwise =>
      first.Proper ∧ Branch.AllProper others ∧ Statement.AllProper? otherwise
  | .loop _ start limit step body =>
      start.Proper ∧ limit.Proper ∧ Expression.Proper? step ∧ Statement.AllProper body
  | .strayExpression _ | .strayField _ => False

def Statement.AllProper : List Statement → Prop
  | [] => True
  | statement :: rest => statement.Proper ∧ Statement.AllProper rest

/-- An omitted block is proper. -/
def Statement.AllProper? : Option (List Statement) → Prop
  | none => True
  | some body => Statement.AllProper body

end

theorem ok_bind {α β ε : Type} {first : Except ε α} {next : α → Except ε β} {result : β}
    (ok : first >>= next = .ok result) :
    ∃ middle, first = .ok middle ∧ next middle = .ok result := by
  cases first with
  | error error => cases ok
  | ok middle => exact ⟨middle, rfl, ok⟩

theorem negate_proper {expression : Expression} (proper : expression.Proper) :
    expression.negate.Proper := by
  cases expression with
  | number value => exact True.intro
  | _ => exact ⟨True.intro, proper⟩

theorem assign_proper {start : Position} {target value : Expression} {statement : Statement}
    (targetProper : target.Proper) (valueProper : value.Proper)
    (read : Statement.assign? start target value = .ok statement) : statement.Proper := by
  unfold Statement.assign? at read
  by_cases assignable : target.isTarget
  · rw [if_pos assignable] at read
    cases read
    exact ⟨assignable, targetProper, valueProper⟩
  · rw [if_neg assignable] at read
    cases read

theorem getD_proper {value : Option Expression} (proper : Expression.Proper? value) :
    (value.getD .nil).Proper := by
  cases value with
  | none => exact True.intro
  | some expression => exact proper

-- One lemma for each function that makes programs out of trees, in the order of the functions.
mutual

theorem expression_proper {tree : Tree.Expression} {expression : Expression}
    (read : Expression.ofTree tree = .ok expression) : expression.Proper := by
  cases tree with
  | number | string =>
      obtain ⟨_, _, read⟩ := ok_bind read
      cases read
      exact True.intro
  | boolean | nil | name =>
      cases read
      exact True.intro
  | table fields =>
      obtain ⟨_, inner, read⟩ := ok_bind read
      cases read
      exact fields_proper inner
  | negate operand =>
      obtain ⟨_, inner, read⟩ := ok_bind read
      cases read
      exact negate_proper (expression_proper inner)
  | binary lhs _ rhs =>
      obtain ⟨_, left, read⟩ := ok_bind read
      obtain ⟨_, right, read⟩ := ok_bind read
      cases read
      exact ⟨expression_proper left, expression_proper right⟩
  | call callee arguments =>
      obtain ⟨_, called, read⟩ := ok_bind read
      obtain ⟨_, given, read⟩ := ok_bind read
      cases read
      exact ⟨expression_proper called, expressions_proper given⟩
  | dot target _ =>
      obtain ⟨_, inner, read⟩ := ok_bind read
      cases read
      have proper := expression_proper inner
      exact proper
  | index target key =>
      obtain ⟨_, indexed, read⟩ := ok_bind read
      obtain ⟨_, given, read⟩ := ok_bind read
      cases read
      exact ⟨expression_proper indexed, expression_proper given⟩
  | function _ body =>
      obtain ⟨_, inner, read⟩ := ok_bind read
      cases read
      exact block_proper inner

theorem expressions_proper {trees : List Tree.Expression} {expressions : List Expression}
    (read : Expression.ofTrees trees = .ok expressions) : Expression.AllProper expressions := by
  cases trees with
  | nil =>
      cases read
      exact True.intro
  | cons tree rest =>
      obtain ⟨_, first, read⟩ := ok_bind read
      obtain ⟨_, others, read⟩ := ok_bind read
      cases read
      exact ⟨expression_proper first, expressions_proper others⟩

theorem omitted_proper {tree : Option Tree.Expression} {expression : Option Expression}
    (read : Expression.ofTree? tree = .ok expression) : Expression.Proper? expression := by
  cases tree with
  | none =>
      cases read
      exact True.intro
  | some tree =>
      obtain ⟨_, inner, read⟩ := ok_bind read
      cases read
      exact expression_proper inner

theorem field_proper {tree : Tree.Field} {field : Field}
    (read : Field.ofTree tree = .ok field) : field.Proper := by
  cases tree with
  | positional value | named _ value =>
      obtain ⟨_, inner, read⟩ := ok_bind read
      cases read
      exact expression_proper inner
  | keyed key value =>
      obtain ⟨_, left, read⟩ := ok_bind read
      obtain ⟨_, right, read⟩ := ok_bind read
      cases read
      exact ⟨expression_proper left, expression_proper right⟩

theorem fields_proper {trees : List Tree.Field} {fields : List Field}
    (read : Field.ofTrees trees = .ok fields) : Field.AllProper fields := by
  cases trees with
  | nil =>
      cases read
      exact True.intro
  | cons tree rest =>
      obtain ⟨_, first, read⟩ := ok_bind read
      obtain ⟨_, others, read⟩ := ok_bind read
      cases read
      exact ⟨field_proper first, fields_proper others⟩

theorem branch_proper {tree : Tree.Branch} {branch : Branch}
    (read : Branch.ofTree tree = .ok branch) : branch.Proper := by
  cases tree with
  | mk condition body =>
      obtain ⟨_, guard, read⟩ := ok_bind read
      obtain ⟨_, inner, read⟩ := ok_bind read
      cases read
      exact ⟨expression_proper guard, block_proper inner⟩

theorem branches_proper {trees : List Tree.Branch} {branches : List Branch}
    (read : Branch.ofTrees trees = .ok branches) : Branch.AllProper branches := by
  cases trees with
  | nil =>
      cases read
      exact True.intro
  | cons tree rest =>
      obtain ⟨_, first, read⟩ := ok_bind read
      obtain ⟨_, others, read⟩ := ok_bind read
      cases read
      exact ⟨branch_proper first, branches_proper others⟩

theorem statement_proper {tree : Tree.Statement} {statement : Statement}
    (read : Statement.ofTree tree = .ok statement) : statement.Proper := by
  cases tree with
  | assign start target value =>
      obtain ⟨_, left, read⟩ := ok_bind read
      obtain ⟨_, right, read⟩ := ok_bind read
      exact assign_proper (expression_proper left) (expression_proper right) read
  | declare _ value | returns value =>
      obtain ⟨_, inner, read⟩ := ok_bind read
      cases read
      exact getD_proper (omitted_proper inner)
  | evaluate expression =>
      obtain ⟨_, inner, read⟩ := ok_bind read
      cases read
      exact expression_proper inner
  | function _ _ body =>
      obtain ⟨_, inner, read⟩ := ok_bind read
      cases read
      exact block_proper inner
  | choose first others otherwise =>
      obtain ⟨_, chosen, read⟩ := ok_bind read
      obtain ⟨_, further, read⟩ := ok_bind read
      obtain ⟨_, last, read⟩ := ok_bind read
      cases read
      exact ⟨branch_proper chosen, branches_proper further,
        otherwise_proper last⟩
  | loop _ start limit step body =>
      obtain ⟨_, starts, read⟩ := ok_bind read
      obtain ⟨_, limits, read⟩ := ok_bind read
      obtain ⟨_, steps, read⟩ := ok_bind read
      obtain ⟨_, inner, read⟩ := ok_bind read
      cases read
      exact ⟨expression_proper starts, expression_proper limits,
        omitted_proper steps, block_proper inner⟩

theorem block_proper {trees : List Tree.Statement} {block : Block}
    (read : Block.ofTree trees = .ok block) : Statement.AllProper block := by
  cases trees with
  | nil =>
      cases read
      exact True.intro
  | cons tree rest =>
      obtain ⟨_, first, read⟩ := ok_bind read
      obtain ⟨_, others, read⟩ := ok_bind read
      cases read
      exact ⟨statement_proper first, block_proper others⟩

theorem otherwise_proper {tree : Option (List Tree.Statement)} {block : Option Block}
    (read : Block.ofTree? tree = .ok block) : Statement.AllProper? block := by
  cases tree with
  | none =>
      cases read
      exact True.intro
  | some body =>
      obtain ⟨_, inner, read⟩ := ok_bind read
      cases read
      exact block_proper inner

end

end LuaCore
