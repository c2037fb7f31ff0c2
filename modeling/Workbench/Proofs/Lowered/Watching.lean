import Workbench.Proofs.Lang.Watching
import Workbench.Proofs.Lowered.Soundness

/-!
# Runs under watch

A run of a contract is evaluated once more with a note of every step of every function in it: what
is read and whether it had been given a value, what every expression gives, where control falls
through, and why there is a trap. The notes are all that is added. `Step.Sound` says what a step has
to be like if nothing is to go wrong.
-/

namespace Workbench.Lowered

open Lang (Ty Word Host HostCall Builtin BinaryOp Eval Flow)
open Lang.Eval (note asking)

/-! ### Steps -/

/-- Why a run traps. -/
inductive Cause (State : Type) where
  /-- A requirement has this value. -/
  | requirement (value : Word)
  | operator (op : BinaryOp) (left right : Word)
  /-- The host stops the run at a request that it gets in this state. -/
  | host (request : HostCall) (state : State)

/-- A step of a function. -/
inductive Step (State : Type) where
  | enters (args : List Word)
  /-- A local is read, where parameters and declarations have given a value to some. -/
  | reads (index : Nat) (given : List Nat)
  | gives (e : Expr) (value : Option Word)
  | binds (index : Nat) (value : Word)
  | stores (slot : Nat) (value : Word)
  /-- Control goes on behind a statement. -/
  | passes (s : Stmt)
  /-- Control comes to the end of a block. -/
  | ends (body : List Stmt)
  /-- Control comes to the end of the body of the function. -/
  | runsOff
  | leaves (value : Option Word)
  | traps (cause : Cause State)

/-- The steps of a run, each with the function whose step it is. -/
abbrev Log (State : Type) := List (Function × Step State)

/-- A trap is one that the language knows. -/
def Cause.Sound {State : Type} (host : Host State) : Cause State → Prop
  | .requirement value => value = 0
  | .operator op left right => (op = .div ∨ op = .rem) ∧ op.combine? left right = none
  | .host request state => (host.serve request state).1 = none

/-- A step of a function with which nothing goes wrong, by a notion of the values of a type. -/
def Step.Sound {State : Type} (c : Contract) (host : Host State) (V : Ty → Word → Prop)
    (f : Function) : Step State → Prop
  | .enters args => ArgsFit V f.signature.params args
  | .reads index given => index ∈ given
  | .gives e value => Fits V e.type value
  | .binds index value => ∃ type, (c.context f).locals[index]? = some type ∧ V type value
  | .stores slot value => ∃ type, (c.context f).storage[slot]? = some type ∧ V type value
  | .passes s => s.diverges = false
  | .ends body => Stmt.anyDiverges body = false
  | .runsOff => f.result.hasValue = false
  | .leaves value => Fits V f.result value
  | .traps cause => cause.Sound host

/-! ### Evaluation -/

/-- The locals of a function, and those that a parameter or a declaration on the way has given a
value. -/
structure Tracked where
  locals : Locals
  given : List Nat

/-- What calls mean under watch. -/
abbrev WatchedCalls (State : Type) := Nat → List Word → Eval (State × Log State) (Option Word)

section

variable {State : Type} (host : Host State) (calls : WatchedCalls State) (f : Function)

/-- A request to the host. -/
def watchAsk (kind : Builtin) (args : List Word) : Eval (State × Log State) Word :=
  asking host kind args fun state => (f, .traps (.host ⟨kind, args⟩ state))

/-- The value of an expression with a note of it. -/
def giving (e : Expr) (x : Eval (State × Log State) (Option Word)) :
    Eval (State × Log State) (Option Word) := do
  let value ← x
  note (f, .gives e value)
  return value

mutual

def watchExpr (vars : Tracked) : Expr → Eval (State × Log State) (Option Word)
  | .int value span => giving f (.int value span) (return some value)
  | .bool value span => giving f (.bool value span) (return some (Word.ofBool value))
  | .var index type span => giving f (.var index type span) do
      note (f, .reads index vars.given)
      return some (← Eval.needed (vars.locals[index]?.join))
  | .slot index type span => giving f (.slot index type span)
      (some <$> watchAsk host f .storageLoad [BitVec.ofNat 32 index])
  | .unary op operand span => giving f (.unary op operand span) do
      return some (op.apply (← Eval.needed (← watchExpr vars operand)))
  | .binary op lhs rhs span => giving f (.binary op lhs rhs span) do
      return some (← op.evaluateOrCause (fun a b => (f, .traps (.operator op a b)))
        (do Eval.needed (← watchExpr vars lhs)) (do Eval.needed (← watchExpr vars rhs)))
  | .shl value amount span => giving f (.shl value amount span) do
      return some ((← Eval.needed (← watchExpr vars value)) <<< amount)
  | .call function args result span => giving f (.call function args result span) do
      calls function (← watchArgs vars args)
  | .builtin kind args span => giving f (.builtin kind args span) do
      let answer ← watchAsk host f kind (← watchArgs vars args)
      return if kind.result.hasValue then some answer else none

def watchArgs (vars : Tracked) : List Expr → Eval (State × Log State) (List Word)
  | [] => return []
  | e :: rest => do
      let value ← Eval.needed (← watchExpr vars e)
      return value :: (← watchArgs vars rest)

end

def watchWord (vars : Tracked) (e : Expr) : Eval (State × Log State) Word := do
  Eval.needed (← watchExpr host calls f vars e)

/-- Control comes to the end of a block. -/
def ending (body : List Stmt) (vars : Tracked) : Eval (State × Log State) (Flow Tracked) := do
  note (f, .ends body)
  return .next vars

mutual

def watchStmt (rounds : Nat) (vars : Tracked) : Stmt → Eval (State × Log State) (Flow Tracked)
  | .letIn index value _ => do
      let w ← watchWord host calls f vars value
      note (f, .binds index w)
      return .next ⟨vars.locals.set index (some w), index :: vars.given⟩
  | .set index value _ => do
      let w ← watchWord host calls f vars value
      note (f, .binds index w)
      return .next { vars with locals := vars.locals.set index (some w) }
  | .store slot value _ => do
      let w ← watchWord host calls f vars value
      note (f, .stores slot w)
      let _ ← watchAsk host f .storageStore [BitVec.ofNat 32 slot, w]
      return .next vars
  | .ifThen cond yes no _ => do
      if (← watchWord host calls f vars cond) = 0 then
        (← watchStmts rounds vars no).andThen (ending f no)
      else (← watchStmts rounds vars yes).andThen (ending f yes)
  | .whileDo cond body _ =>
      Flow.loop (fun vars => watchWord host calls f vars cond)
        (fun vars => do (← watchStmts rounds vars body).andThen (ending f body)) rounds vars
  | .returns none _ => return .returned none
  | .returns (some value) _ => return .returned (← watchExpr host calls f vars value)
  | .require cond _ => do
      let w ← watchWord host calls f vars cond
      if w = 0 then do
        note (f, .traps (.requirement w))
        throw .trapped
      else return .next vars
  | .eval value _ => do
      let _ ← watchExpr host calls f vars value
      return .next vars

def watchStmts (rounds : Nat) (vars : Tracked) :
    List Stmt → Eval (State × Log State) (Flow Tracked)
  | [] => return .next vars
  | s :: rest => do
      (← watchStmt rounds vars s).andThen fun vars => do
        note (f, .passes s)
        watchStmts rounds vars rest

end

/-- Evaluates the body of a function on arguments. -/
def Function.watch (rounds : Nat) (args : List Word) : Eval (State × Log State) (Option Word) := do
  if args.length ≠ f.paramCount then throw .stuck
  note (f, .enters args)
  let flow ← watchStmts host calls f rounds ⟨f.entry args, List.range f.paramCount⟩ f.body
  let flow ← flow.andThen fun vars => do
    note (f, .ends f.body)
    note (f, .runsOff)
    return .next vars
  let value ← Lang.resultOf f.result.hasValue flow
  note (f, .leaves value)
  return value

end

/-- Calls a function of a contract, whose steps and those of all functions that it calls are noted.
-/
def Contract.watch {State : Type} (contract : Contract) (host : Host State) :
    Nat → WatchedCalls State
  | 0, _, _ => throw .outOfFuel
  | fuel + 1, index, args => do
      let f ← Eval.needed contract.functions[index]?
      f.watch host (Contract.watch contract host fuel) fuel args

end Workbench.Lowered
