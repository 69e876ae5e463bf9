import LuaCore.Proofs.Activity
import LuaCore.Proofs.Mirroring
import LuaCore.Session

/-!
The same program on both sides of a bond. The constructors of tables in a program count up to its
width. Where the bond admits the places up to there, the program takes the same steps on both sides,
and so does everything that a session is asked to do with it.
-/

namespace LuaCore

open Evaluation

/-- How many fields have their keys by position. -/
def Field.positions : List Field → Nat
  | [] => 0
  | .positional _ :: rest => Field.positions rest + 1
  | .named .. :: rest => Field.positions rest
  | .keyed .. :: rest => Field.positions rest

/-! How far any constructor of a table counts. A stray part is refused before it is looked into. -/

mutual

def Expression.width : Expression → Nat
  | .number _ => 0
  | .string _ => 0
  | .boolean _ => 0
  | .nil => 0
  | .name _ => 0
  | .table fields => max (Field.positions fields) (Field.widthAll fields)
  | .binary lhs _ rhs => max lhs.width rhs.width
  | .call callee arguments => max callee.width (Expression.widthAll arguments)
  | .dot target _ => target.width
  | .index target key => max target.width key.width
  | .function _ body => Block.width body
  | .strayStatement _ => 0
  | .strayField _ => 0

def Expression.widthAll : List Expression → Nat
  | [] => 0
  | expression :: rest => max expression.width (Expression.widthAll rest)

def Expression.width? : Option Expression → Nat
  | none => 0
  | some expression => expression.width

def Field.width : Field → Nat
  | .positional value => value.width
  | .named _ value => value.width
  | .keyed key value => max key.width value.width

def Field.widthAll : List Field → Nat
  | [] => 0
  | field :: rest => max field.width (Field.widthAll rest)

def Branch.width : Branch → Nat
  | .mk condition body => max condition.width (Block.width body)

def Branch.widthAll : List Branch → Nat
  | [] => 0
  | branch :: rest => max branch.width (Branch.widthAll rest)

def Statement.width : Statement → Nat
  | .assign target value => max target.width value.width
  | .declare _ value => value.width
  | .evaluate expression => expression.width
  | .returns value => value.width
  | .function _ _ body => Block.width body
  | .choose first others otherwise =>
      max first.width (max (Branch.widthAll others) (Block.width? otherwise))
  | .loop _ start limit step body =>
      max start.width (max limit.width (max (Expression.width? step) (Block.width body)))
  | .strayExpression _ => 0
  | .strayField _ => 0

def Block.width : List Statement → Nat
  | [] => 0
  | statement :: rest => max statement.width (Block.width rest)

def Block.width? : Option (List Statement) → Nat
  | none => 0
  | some body => Block.width body

end

namespace Bond

variable {bond : Bond}

/-- A function answers to itself only, and a statement may be counted on both sides. -/
structure Uniform (bond : Bond) : Prop where
  bodies {body other : Block} :
    bond.bodies body other ↔ body = other ∧ bond.places (Block.width body)
  places {place width : Nat} : place ≤ width → bond.places width → bond.places place
  begin {machine other : Machine} (summary : String) : bond.machines machine other →
    bond.machines (machine.begin summary) (other.begin summary)

theorem places_left {left right : Nat} (uniform : bond.Uniform)
    (fits : bond.places (max left right)) : bond.places left :=
  uniform.places (Nat.le_max_left left right) fits

theorem places_right {left right : Nat} (uniform : bond.Uniform)
    (fits : bond.places (max left right)) : bond.places right :=
  uniform.places (Nat.le_max_right left right) fits

theorem mirrors_begin {α : Type} {summary : String} {rest rest' : Unit → Eval α}
    (uniform : bond.Uniform) (mirrors : bond.Mirrors (rest ()) (rest' ())) :
    bond.Mirrors (Eval.bind (Eval.modify fun machine => machine.begin summary) rest)
      (Eval.bind (Eval.modify fun machine => machine.begin summary) rest') :=
  mirrors_bind (mirrors_modify fun _ _ machines => uniform.begin summary machines) fun _ => mirrors

section

variable {call call' : Caller} {fuel : Nat}

-- Both sides have the same tree, so that all cases are alike: the parts are mirrored, and so are
-- the steps between them. Only `fillTable` writes to places that no value stands for.
mutual

theorem mirrors_evaluate (uniform : bond.Uniform) (calls : bond.CallsMirror call call')
    {scope : Scope} {expression : Expression} (fits : bond.places expression.width) :
    bond.Mirrors (evaluate call fuel scope expression) (evaluate call' fuel scope expression) := by
  cases expression with
  | number | string | boolean | nil => exact mirrors_pure _
  | name name => exact mirrors_lookup scope name
  | table fields =>
      rw [Expression.width] at fits
      rw [evaluate, evaluate]
      apply mirrors_bind mirrors_newTable
      intro id
      apply mirrors_bind
      · apply mirrors_fillTable uniform calls (places_right uniform fits)
        simpa using places_left uniform fits
      intro _
      exact mirrors_pure _
  | binary lhs operation rhs =>
      rw [Expression.width] at fits
      apply mirrors_bind (mirrors_evaluate uniform calls (places_left uniform fits))
      intro left
      apply mirrors_bind (mirrors_evaluate uniform calls (places_right uniform fits))
      intro right
      exact mirrors_operate operation left right
  | call callee arguments =>
      rw [Expression.width] at fits
      apply mirrors_bind (mirrors_evaluate uniform calls (places_left uniform fits))
      intro function
      cases function with
      | function id =>
          apply mirrors_bind (mirrors_evaluateAll uniform calls (places_right uniform fits))
          intro values
          exact calls _ values
      | _ => exact mirrors_misuse _ _
  | dot target name =>
      rw [Expression.width] at fits
      apply mirrors_bind (mirrors_evaluate uniform calls fits)
      intro value
      apply mirrors_bind (mirrors_requireTable value)
      intro id
      exact mirrors_readTable id (.name name)
  | index target key =>
      rw [Expression.width] at fits
      apply mirrors_indexed (mirrors_evaluate uniform calls (places_left uniform fits))
        (mirrors_evaluate uniform calls (places_right uniform fits))
      intro id key _
      exact mirrors_readTable id key
  | function parameters body =>
      rw [Expression.width] at fits
      exact mirrors_newFunction (.closure (uniform.bodies.mpr ⟨rfl, fits⟩))
  | strayStatement | strayField => exact mirrors_fail (bond.failures_refl _)

theorem mirrors_evaluateAll (uniform : bond.Uniform) (calls : bond.CallsMirror call call')
    {scope : Scope} {expressions : List Expression}
    (fits : bond.places (Expression.widthAll expressions)) :
    bond.Mirrors (evaluateAll call fuel scope expressions)
      (evaluateAll call' fuel scope expressions) := by
  cases expressions with
  | nil => exact mirrors_pure _
  | cons expression rest =>
      rw [Expression.widthAll] at fits
      apply mirrors_bind (mirrors_evaluate uniform calls (places_left uniform fits))
      intro value
      apply mirrors_bind (mirrors_evaluateAll uniform calls (places_right uniform fits))
      intro values
      exact mirrors_pure _

theorem mirrors_fillTable (uniform : bond.Uniform) (calls : bond.CallsMirror call call')
    {scope : Scope} {id position : Nat} {fields : List Field}
    (fits : bond.places (Field.widthAll fields))
    (counts : bond.places (position - 1 + Field.positions fields)) :
    bond.Mirrors (fillTable call fuel scope id position fields)
      (fillTable call' fuel scope id position fields) := by
  cases fields with
  | nil => exact mirrors_pure _
  | cons field rest =>
      have behind := places_right uniform fits
      have first := places_left uniform fits
      cases field with
      | positional value =>
          rw [Field.positions] at counts
          have here : bond.places position := uniform.places (by omega) counts
          apply mirrors_bind (mirrors_evaluate uniform calls first)
          intro given
          apply mirrors_bind (mirrors_writeTable given id (.inr ⟨position, here, rfl⟩))
          intro _
          exact mirrors_fillTable uniform calls behind (uniform.places (by omega) counts)
      | named name value =>
          apply mirrors_bind (mirrors_evaluate uniform calls first)
          intro given
          apply mirrors_bind (mirrors_writeTable given id (.inl ⟨.string name, rfl⟩))
          intro _
          exact mirrors_fillTable uniform calls behind counts
      | keyed key value =>
          apply mirrors_bind (mirrors_evaluate uniform calls (places_left uniform first))
          intro asked
          apply mirrors_requireKey asked
          intro key within
          apply mirrors_bind (mirrors_evaluate uniform calls (places_right uniform first))
          intro given
          apply mirrors_bind (mirrors_writeTable given id within)
          intro _
          exact mirrors_fillTable uniform calls behind counts

theorem mirrors_executeBlock (uniform : bond.Uniform) (calls : bond.CallsMirror call call')
    {scope : Scope} {statements : List Statement} (fits : bond.places (Block.width statements)) :
    bond.Mirrors (executeBlock call fuel scope statements)
      (executeBlock call' fuel scope statements) := by
  cases statements with
  | nil => exact mirrors_pure _
  | cons statement rest =>
      rw [Block.width] at fits
      apply mirrors_bind (mirrors_execute uniform calls (places_left uniform fits))
      intro flow
      cases flow with
      | next scope => exact mirrors_executeBlock uniform calls (places_right uniform fits)
      | result value => exact mirrors_pure _

theorem mirrors_executeBranches (uniform : bond.Uniform) (calls : bond.CallsMirror call call')
    {scope : Scope} {otherwise otherwise' : Eval Flow} {branches : List Branch}
    (last : bond.Mirrors otherwise otherwise') (fits : bond.places (Branch.widthAll branches)) :
    bond.Mirrors (executeBranches call fuel scope otherwise branches)
      (executeBranches call' fuel scope otherwise' branches) := by
  cases branches with
  | nil => exact last
  | cons branch rest =>
      obtain ⟨condition, body⟩ := branch
      rw [Branch.widthAll, Branch.width] at fits
      have first := places_left uniform fits
      exact mirrors_branch (mirrors_evaluate uniform calls (places_left uniform first))
        (mirrors_executeBlock uniform calls (places_right uniform first))
        (mirrors_executeBranches uniform calls last (places_right uniform fits))

theorem mirrors_execute (uniform : bond.Uniform) (calls : bond.CallsMirror call call')
    {scope : Scope} {statement : Statement} (fits : bond.places statement.width) :
    bond.Mirrors (execute call fuel scope statement) (execute call' fuel scope statement) := by
  cases statement with
  | assign target value =>
      rw [Statement.width] at fits
      have left := places_left uniform fits
      rw [execute, execute]
      apply mirrors_begin uniform
      apply mirrors_bind (mirrors_evaluate uniform calls (places_right uniform fits))
      intro given
      cases target with
      | name name =>
          apply mirrors_bind (mirrors_assignName scope name given)
          intro after
          exact mirrors_pure _
      | dot target name =>
          rw [Expression.width] at left
          apply mirrors_bind (mirrors_evaluate uniform calls left)
          intro value
          apply mirrors_bind (mirrors_requireTable value)
          intro id
          have within : (Key.name name).Within bond.places := .inl ⟨.string name, rfl⟩
          exact mirrors_bind (mirrors_writeTable given id within) fun _ => mirrors_pure _
      | index target key =>
          rw [Expression.width] at left
          apply mirrors_indexed (mirrors_evaluate uniform calls (places_left uniform left))
            (mirrors_evaluate uniform calls (places_right uniform left))
          intro id key within
          exact mirrors_bind (mirrors_writeTable given id within) fun _ => mirrors_pure _
      | _ => exact mirrors_fail (bond.failures_refl _)
  | declare name value =>
      rw [Statement.width] at fits
      rw [execute, execute]
      apply mirrors_begin uniform
      apply mirrors_bind (mirrors_evaluate uniform calls fits)
      intro given
      apply mirrors_bind (mirrors_bindName scope name given)
      intro after
      exact mirrors_pure _
  | evaluate value | returns value =>
      rw [Statement.width] at fits
      rw [execute, execute]
      apply mirrors_begin uniform
      apply mirrors_bind (mirrors_evaluate uniform calls fits)
      intro given
      exact mirrors_pure _
  | function name parameters body =>
      rw [Statement.width] at fits
      rw [execute, execute]
      apply mirrors_begin uniform
      apply mirrors_bind (mirrors_newFunction (.closure (uniform.bodies.mpr ⟨rfl, fits⟩)))
      intro function
      apply mirrors_bind (mirrors_putGlobal name function)
      intro _
      exact mirrors_pure _
  | choose first others otherwise =>
      obtain ⟨condition, body⟩ := first
      rw [Statement.width, Branch.width] at fits
      have first := places_left uniform fits
      have behind := places_right uniform fits
      rw [execute_choose, execute_choose]
      apply mirrors_begin uniform
      refine mirrors_branch (mirrors_evaluate uniform calls (places_left uniform first))
        (mirrors_executeBlock uniform calls (places_right uniform first))
        (mirrors_executeBranches uniform calls ?_ (places_left uniform behind))
      cases otherwise with
      | none => exact mirrors_pure _
      | some body => exact mirrors_executeBlock uniform calls (places_right uniform behind)
  | loop counter start limit step body =>
      rw [Statement.width] at fits
      have behind := places_right uniform fits
      have last := places_right uniform behind
      rw [execute, execute]
      apply mirrors_begin uniform
      apply mirrors_bind (mirrors_evaluate uniform calls (places_left uniform fits))
      intro value
      apply mirrors_bind (mirrors_requireNumber value _)
      intro start
      apply mirrors_bind (mirrors_evaluate uniform calls (places_left uniform behind))
      intro value
      apply mirrors_bind (mirrors_requireNumber value _)
      intro limit
      have inside (inner : Scope) : bond.Mirrors (executeBlock call fuel inner body)
          (executeBlock call' fuel inner body) :=
        mirrors_executeBlock uniform calls (places_right uniform last)
      have goes (step : Float) :=
        mirrors_leave scope (mirrors_rounds counter limit step inside fuel start scope)
      cases step with
      | none => exact mirrors_bind (mirrors_pure _) goes
      | some step =>
          apply mirrors_bind (mirrors_evaluate uniform calls (places_left uniform last))
          intro value
          apply mirrors_bind (mirrors_requireNumber value _)
          exact goes
  | strayExpression | strayField =>
      rw [execute, execute]
      exact mirrors_begin uniform (mirrors_fail (bond.failures_refl _))

end

end

theorem mirrors_callsWith {host : Host} (uniform : bond.Uniform) (admits : bond.Admits host)
    (fuel : Nat) : bond.CallsMirror (applyWith host fuel) (applyWith host fuel) := by
  apply mirrors_applyWith admits
  intro call call' fuel scope body other calls same
  obtain ⟨rfl, fits⟩ := uniform.bodies.mp same
  exact mirrors_executeBlock uniform calls fits

theorem mirrors_calls (uniform : bond.Uniform) (fuel : Nat) :
    bond.CallsMirror (apply fuel) (apply fuel) := by
  rw [← apply_own]
  exact mirrors_callsWith uniform admits_own fuel

theorem mirrors_runWith {host : Host} (uniform : bond.Uniform) (admits : bond.Admits host)
    (fuel : Nat) {program : Block} (fits : bond.places (Block.width program)) :
    bond.Mirrors (runWith host fuel program) (runWith host fuel program) := by
  apply mirrors_bind (mirrors_executeBlock uniform (mirrors_callsWith uniform admits fuel) fits)
  intro flow
  exact mirrors_pure _

theorem mirrors_run (uniform : bond.Uniform) (fuel : Nat) {program : Block}
    (fits : bond.places (Block.width program)) :
    bond.Mirrors (run fuel program) (run fuel program) := by
  rw [← run_own]
  exact mirrors_runWith uniform admits_own fuel fits

end Bond

end LuaCore
