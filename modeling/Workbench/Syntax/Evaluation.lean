import Workbench.Lang.Evaluation
import Workbench.Syntax.Tree

/-!
# The meaning of contracts

Names mean what the text around them says. A block opens a scope and closes it at its end; a
variable is in sight from behind its declaration on, and hides those of the same name further out.
A name without a variable in sight is that of a storage variable, whose slot is its position among
the declarations. Storage is the host's.

The meaning of expressions and statements follows their structure; what a call means is handed in.
Only `Contract.call` ties the knot, on fuel.
-/

namespace Workbench.Syntax

open Lang (Builtin Word Host Eval Flow)

/-! ### Scopes -/

/-- The variables in sight with their values: a scope for each open block, the innermost and newest
first. -/
abbrev Scopes := List (List (String × Word))

namespace Scopes

/-- The value of the variable that a name means. -/
def find? (name : String) : Scopes → Option Word
  | [] => none
  | scope :: outer => (scope.lookup name).or (find? name outer)

/-- The scopes with a new variable in the innermost one. -/
def bind (name : String) (value : Word) : Scopes → Scopes
  | [] => [[(name, value)]]
  | scope :: outer => ((name, value) :: scope) :: outer

/-- A scope with the newest variable of a name changed. -/
def setIn (name : String) (value : Word) : List (String × Word) → List (String × Word)
  | [] => []
  | (other, old) :: rest =>
      if name = other then (other, value) :: rest else (other, old) :: setIn name value rest

/-- The scopes with the variable changed that a name means; none if it means none. -/
def set? (name : String) (value : Word) : Scopes → Option Scopes
  | [] => none
  | scope :: outer =>
      if (scope.lookup name).isSome then some (setIn name value scope :: outer)
      else (set? name value outer).map (scope :: ·)

end Scopes

/-! ### Declarations by name -/

namespace Contract

/-- The slot of a storage variable. -/
def slot? (contract : Contract) (name : String) : Option Nat :=
  contract.storage.findIdx? fun d => d.name.text == name

def function? (contract : Contract) (name : String) : Option FunctionDecl :=
  contract.functions.find? fun f => f.name.text == name

end Contract

/-- What calls of functions mean, by name and arguments. -/
abbrev Calls (State : Type) := String → List Word → Eval State (Option Word)

section

variable {State : Type} (contract : Contract) (host : Host State) (calls : Calls State)

/-! ### Expressions -/

def evalName (scopes : Scopes) (name : String) : Eval State Word := do
  match scopes.find? name with
  | some value => return value
  | none => Eval.ask host .storageLoad [BitVec.ofNat 32 (← Eval.needed (contract.slot? name))]

/-- The result of a call by name. Functions of the contract come before the host operations. -/
def evalCall (name : String) (args : List Word) : Eval State (Option Word) := do
  match contract.function? name with
  | some _ => calls name args
  | none =>
      let kind ← Eval.needed (Builtin.ofCallName? name)
      let answer ← Eval.ask host kind args
      return if kind.result.hasValue then some answer else none

mutual

/-- The value of an expression, or none for the call of an operation that gives no value. -/
def evalExpr (scopes : Scopes) : Expr → Eval State (Option Word)
  | .int value _ => return some (BitVec.ofNat 32 value)
  | .bool value _ => return some (Word.ofBool value)
  | .name text _ => some <$> evalName contract host scopes text
  | .unary op operand _ => do
      return some (op.apply (← Eval.needed (← evalExpr scopes operand)))
  | .binary op lhs rhs _ => do
      return some (← op.evaluate (do Eval.needed (← evalExpr scopes lhs))
        (do Eval.needed (← evalExpr scopes rhs)))
  | .call callee args _ => do evalCall contract host calls callee.text (← evalArgs scopes args)

/-- The values of arguments, from left to right. -/
def evalArgs (scopes : Scopes) : List Expr → Eval State (List Word)
  | [] => return []
  | e :: rest => do
      let value ← Eval.needed (← evalExpr scopes e)
      return value :: (← evalArgs scopes rest)

end

/-- The value of an expression that has one. -/
def evalWord (scopes : Scopes) (e : Expr) : Eval State Word := do
  Eval.needed (← evalExpr contract host calls scopes e)

/-! ### Statements -/

/-- Changes what a name means: the variable in sight or else a storage variable. -/
def evalAssign (scopes : Scopes) (name : String) (value : Word) : Eval State (Flow Scopes) := do
  match scopes.set? name value with
  | some scopes => return .next scopes
  | none =>
      let slot ← Eval.needed (contract.slot? name)
      let _ ← Eval.ask host .storageStore [BitVec.ofNat 32 slot, value]
      return .next scopes

mutual

/-- Evaluates a statement; the number bounds the rounds of every loop. -/
def evalStmt (rounds : Nat) (scopes : Scopes) : Stmt → Eval State (Flow Scopes)
  | .letIn name _ value _ => do
      return .next (scopes.bind name.text (← evalWord contract host calls scopes value))
  | .assign target value _ => do
      evalAssign contract host scopes target.text (← evalWord contract host calls scopes value)
  | .ifThen cond yes no _ => do
      if (← evalWord contract host calls scopes cond) = 0 then
        match no with
        | some no => evalBlock rounds scopes no
        | none => return .next scopes
      else evalBlock rounds scopes yes
  | .whileDo cond body _ =>
      Flow.loop (fun scopes => evalWord contract host calls scopes cond)
        (fun scopes => evalBlock rounds scopes body) rounds scopes
  | .returns none _ => return .returned none
  | .returns (some value) _ => return .returned (← evalExpr contract host calls scopes value)
  | .require cond _ => do
      if (← evalWord contract host calls scopes cond) = 0 then throw .trapped
      else return .next scopes
  | .eval value _ => do
      let _ ← evalExpr contract host calls scopes value
      return .next scopes

/-- Evaluates a block in a scope of its own, which ends with it. -/
def evalBlock (rounds : Nat) (scopes : Scopes) : Block → Eval State (Flow Scopes)
  | .mk stmts _ => do
      (← evalStmts rounds ([] :: scopes) stmts).andThen fun inner => return .next inner.tail

/-- Evaluates statements in order, up to the first that returns. -/
def evalStmts (rounds : Nat) (scopes : Scopes) : List Stmt → Eval State (Flow Scopes)
  | [] => return .next scopes
  | s :: rest => do
      (← evalStmt rounds scopes s).andThen fun scopes => evalStmts rounds scopes rest

end

/-! ### Functions -/

def FunctionDecl.entry (f : FunctionDecl) (args : List Word) : Scopes :=
  [(f.params.map (·.name.text)).zip args]

/-- Evaluates the body of a function on arguments, of which there have to be as many as parameters.
-/
def FunctionDecl.eval (f : FunctionDecl) (rounds : Nat) (args : List Word) :
    Eval State (Option Word) := do
  if args.length ≠ f.params.length then throw .stuck
  Lang.resultOf f.result.isSome (← evalBlock contract host calls rounds (f.entry args) f.body)

end

/-- Calls a function of a contract. The fuel bounds how deep calls nest and how often loops repeat.
-/
def Contract.call {State : Type} (contract : Contract) (host : Host State) : Nat → Calls State
  | 0, _, _ => throw .outOfFuel
  | fuel + 1, name, args => do
      let f ← Eval.needed (contract.function? name)
      f.eval contract host (Contract.call contract host fuel) fuel args

end Workbench.Syntax
