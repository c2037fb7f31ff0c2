import Workbench.Lang.Evaluation
import Workbench.Lowered.Basic

/-!
# The meaning of the lowered form

Functions have their locals in a table, in which a local without a value yet is told apart from
every word. Storage is the host's: a read or a write of a slot is a request to it.

The meaning of expressions and statements follows their structure; what a call means is handed in.
Only `Contract.call` ties the knot, on fuel.
-/

namespace Workbench.Lowered

open Lang (Word Host Eval Flow)

/-- The values of the locals of a function. -/
abbrev Locals := List (Option Word)

/-- What calls mean: by the number of the function and the arguments. -/
abbrev Calls (State : Type) := Nat → List Word → Eval State (Option Word)

section

variable {State : Type} (host : Host State) (calls : Calls State)

/-! ### Expressions -/

mutual

/-- The value of an expression, or none for the call of an operation that gives no value. -/
def evalExpr (locals : Locals) : Expr → Eval State (Option Word)
  | .int value _ => return some value
  | .bool value _ => return some (Word.ofBool value)
  | .var index _ _ => return some (← Eval.needed (locals[index]?.join))
  | .slot index _ _ => some <$> Eval.ask host .storageLoad [BitVec.ofNat 32 index]
  | .unary op operand _ => do
      return some (op.apply (← Eval.needed (← evalExpr locals operand)))
  | .binary op lhs rhs _ => do
      return some (← op.evaluate (do Eval.needed (← evalExpr locals lhs))
        (do Eval.needed (← evalExpr locals rhs)))
  | .shl value amount _ => do
      return some ((← Eval.needed (← evalExpr locals value)) <<< amount)
  | .call function args _ _ => do calls function (← evalArgs locals args)
  | .builtin kind args _ => do
      let answer ← Eval.ask host kind (← evalArgs locals args)
      return if kind.result.hasValue then some answer else none

/-- The values of arguments, from left to right. -/
def evalArgs (locals : Locals) : List Expr → Eval State (List Word)
  | [] => return []
  | e :: rest => do
      let value ← Eval.needed (← evalExpr locals e)
      return value :: (← evalArgs locals rest)

end

/-- The value of an expression that has one. -/
def evalWord (locals : Locals) (e : Expr) : Eval State Word := do
  Eval.needed (← evalExpr host calls locals e)

/-! ### Statements -/

mutual

/-- Evaluates a statement; the number bounds the rounds of every loop. -/
def evalStmt (rounds : Nat) (locals : Locals) : Stmt → Eval State (Flow Locals)
  | .letIn index value _ | .set index value _ => do
      return .next (locals.set index (some (← evalWord host calls locals value)))
  | .store slot value _ => do
      let value ← evalWord host calls locals value
      let _ ← Eval.ask host .storageStore [BitVec.ofNat 32 slot, value]
      return .next locals
  | .ifThen cond yes no _ => do
      if (← evalWord host calls locals cond) = 0 then evalStmts rounds locals no
      else evalStmts rounds locals yes
  | .whileDo cond body _ =>
      Flow.loop (fun locals => evalWord host calls locals cond)
        (fun locals => evalStmts rounds locals body) rounds locals
  | .returns none _ => return .returned none
  | .returns (some value) _ => return .returned (← evalExpr host calls locals value)
  | .require cond _ => do
      if (← evalWord host calls locals cond) = 0 then throw .trapped
      else return .next locals
  | .eval value _ => do
      let _ ← evalExpr host calls locals value
      return .next locals

/-- Evaluates statements in order, up to the first that returns. -/
def evalStmts (rounds : Nat) (locals : Locals) : List Stmt → Eval State (Flow Locals)
  | [] => return .next locals
  | s :: rest => do
      (← evalStmt rounds locals s).andThen fun locals => evalStmts rounds locals rest

end

/-! ### Functions -/

/-- The locals with which the body of a function starts. -/
def Function.entry (f : Function) (args : List Word) : Locals :=
  args.map some ++ List.replicate (f.locals.length - f.paramCount) none

/-- Evaluates the body of a function on arguments, of which there have to be as many as parameters.
-/
def Function.eval (f : Function) (rounds : Nat) (args : List Word) : Eval State (Option Word) := do
  if args.length ≠ f.paramCount then throw .stuck
  Lang.resultOf f.result.hasValue (← evalStmts host calls rounds (f.entry args) f.body)

end

/-- Calls a function of a contract. The fuel bounds how deep calls nest and how often loops repeat.
-/
def Contract.call {State : Type} (contract : Contract) (host : Host State) :
    Nat → Calls State
  | 0, _, _ => throw .outOfFuel
  | fuel + 1, index, args => do
      let f ← Eval.needed contract.functions[index]?
      f.eval host (Contract.call contract host fuel) fuel args

end Workbench.Lowered
