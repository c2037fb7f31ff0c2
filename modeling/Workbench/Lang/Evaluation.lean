import Workbench.Lang.Host
import Workbench.Lang.Operator

/-!
# Evaluation

What the meanings of all forms of a contract have in common. An evaluation talks to a host. It ends
with a result, in a trap, or stuck at something that has no meaning; a loop or a chain of calls that
goes on for longer than the fuel lasts is left unfinished. Fuel is no part of the meaning: a result
that some fuel leads to is the result.
-/

namespace Workbench.Lang

/-! ### Ends without a result -/

/-- Why an evaluation has no result. -/
inductive Halt where
  /-- A requirement failed, a division had no result or the host stopped the run. -/
  | trapped
  /-- The contract asks for something that has no meaning, which no checked contract does. -/
  | stuck
  | outOfFuel
  deriving DecidableEq, Repr, Inhabited

/-- An evaluation next to a host with states of a given type. -/
abbrev Eval (State α : Type) := ExceptT Halt (StateM State) α

namespace Eval

variable {State α : Type}

/-- The value of an operation that can trap. -/
def orTrap : Option α → Eval State α
  | some a => return a
  | none => throw .trapped

/-- Something that evaluation has no meaning without. -/
def needed : Option α → Eval State α
  | some a => return a
  | none => throw .stuck

def ask (host : Host State) (kind : Builtin) (args : List Word) : Eval State Word := do
  let (answer?, state) := host.serve ⟨kind, args⟩ (← get)
  set state
  orTrap answer?

end Eval

/-! ### Operators -/

/-- The value of an operator with one operand. -/
def UnaryOp.apply (op : UnaryOp) (a : Word) : Word :=
  match op with
  | .neg => -a
  | .not => Word.ofBool (a == 0)

namespace BinaryOp

/-- The value of an operator that its first operand settles. Only then the second is not evaluated.
-/
def settled? (op : BinaryOp) (a : Word) : Option Word :=
  match op with
  | .and => if a = 0 then some 0 else none
  | .or => if a = 0 then none else some 1
  | _ => none

/-- The value of an operator on two operands, of which the first does not settle it; none if the
operator traps on them. -/
def combine? (op : BinaryOp) (a b : Word) : Option Word :=
  match op with
  | add => some (a + b)
  | sub => some (a - b)
  | mul => some (a * b)
  | div => Word.quotient? a b
  | rem => Word.remainder? a b
  | eq => some (Word.ofBool (a == b))
  | ne => some (Word.ofBool (a != b))
  | lt => some (Word.ofBool (a.slt b))
  | le => some (Word.ofBool (a.sle b))
  | gt => some (Word.ofBool (b.slt a))
  | ge => some (Word.ofBool (b.sle a))
  | and | or => some b

/-- Evaluates an operator; the operands are evaluated from left to right. -/
def evaluate {State : Type} (op : BinaryOp) (lhs rhs : Eval State Word) : Eval State Word := do
  let a ← lhs
  match op.settled? a with
  | some value => return value
  | none => Eval.orTrap (op.combine? a (← rhs))

end BinaryOp

/-! ### Statements -/

/-- How statements end: control goes on with the variables that they leave, or the function returns.
-/
inductive Flow (Vars : Type) where
  | next (vars : Vars)
  | returned (value : Option Word)
  deriving DecidableEq, Repr

namespace Flow

variable {State Vars : Type}

/-- Goes on with the variables, unless the function has returned. -/
def andThen (flow : Flow Vars) (rest : Vars → Eval State (Flow Vars)) : Eval State (Flow Vars) :=
  match flow with
  | next vars => rest vars
  | returned value => return .returned value

/-- Evaluates a loop, which has as many rounds at most as the fuel allows. -/
def loop (test : Vars → Eval State Word) (body : Vars → Eval State (Flow Vars)) :
    Nat → Vars → Eval State (Flow Vars)
  | 0, _ => throw .outOfFuel
  | fuel + 1, vars => do
      if (← test vars) = 0 then return .next vars
      else (← body vars).andThen (loop test body fuel)

end Flow

/-- What a call gives for the way in which the body of the function ended. -/
def resultOf {State Vars : Type} (owed : Bool) (flow : Flow Vars) : Eval State (Option Word) :=
  match flow, owed with
  | .returned (some value), true => return some value
  | .returned none, false | .next _, false => return none
  | _, _ => throw .stuck

end Workbench.Lang
