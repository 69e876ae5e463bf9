import LuaCore.Machine

/-!
Computations on a machine. A computation ends with a value or with a failure, and the machine is
kept in both cases; or it exhausts the fuel it was given, which says nothing about the program.
-/

namespace LuaCore

inductive Outcome (α : Type) where
  | done (value : α) (machine : Machine)
  | failed (failure : Failure) (machine : Machine)
  | exhausted

def Eval (α : Type) : Type :=
  Machine → Outcome α

namespace Eval

variable {α β : Type}

@[inline] def pure (value : α) : Eval α :=
  fun machine => .done value machine

@[inline] def bind (first : Eval α) (next : α → Eval β) : Eval β :=
  fun machine => match first machine with
    | .done value machine => next value machine
    | .failed failure machine => .failed failure machine
    | .exhausted => .exhausted

instance : Monad Eval where
  pure := Eval.pure
  bind := Eval.bind

def fail (failure : Failure) : Eval α :=
  fun machine => .failed failure machine

def exhaust : Eval α :=
  fun _ => .exhausted

/-- Reads something off the machine. -/
@[inline] def read (view : Machine → α) : Eval α :=
  fun machine => .done (view machine) machine

@[inline] def modify (change : Machine → Machine) : Eval Unit :=
  fun machine => .done () (change machine)

/-- A change of the machine that yields a value. -/
@[inline] def update (change : Machine → α × Machine) : Eval α :=
  fun machine =>
    let next := change machine
    .done next.1 next.2

/-- Changes the failure that a computation ends with, and the machine it leaves in any case. -/
@[inline] def finish (body : Eval α) (failure : Failure → Failure) (leave : Machine → Machine) :
    Eval α :=
  fun machine => match body machine with
    | .done value machine => .done value (leave machine)
    | .failed reason machine => .failed (failure reason) (leave machine)
    | .exhausted => .exhausted

/-- Goes on with a value in place of a script's own failure. -/
@[inline] def recover (body : Eval α) (handle : Failure → α) : Eval α :=
  fun machine => match body machine with
    | .failed failure machine =>
        if failure.isMisuse then .done (handle failure) machine else .failed failure machine
    | outcome => outcome

@[inline] def misuse (place : Misuse) (value : Value) : Eval α :=
  fail (.misuse place value none)

end Eval

end LuaCore
