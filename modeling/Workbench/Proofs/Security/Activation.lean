import Workbench.Lowered.Evaluation
import Workbench.Proofs.Lang.Noting
import Workbench.Proofs.Lowered.Typing
import Workbench.Security.Scan

/-!
# What an activation passes

An activation is one run of the body of a function. While it is evaluated it passes calls of host
operations and assignments to storage, which are noted in the order in which this happens; what the
functions do that it calls is their own affair. Apart from the notes nothing changes. The notes
follow the text of the body, except that a loop goes back to its start.
-/

namespace Workbench.Security

open Source (Span)
open Lang (Word Host Eval Flow Follows)
open Lang.Eval (note aside Notes)
open Lowered (Expr Stmt Function Contract Locals Calls evalExpr evalArgs evalWord evalStmt
  evalStmts)

/-- Something in the text of a function, with its place. -/
abbrev Passage := Event × Span

/-! ### Evaluation with notes -/

section

variable {State : Type} (host : Host State) (calls : Calls State)

mutual

/-- The value of an expression; the calls of host operations in it are noted. -/
def passExpr (locals : Locals) : Expr → Eval (State × List Passage) (Option Word)
  | .int value _ => return some value
  | .bool value _ => return some (Word.ofBool value)
  | .var index _ _ => return some (← Eval.needed (locals[index]?.join))
  | .slot index _ _ => some <$> aside (Eval.ask host .storageLoad [BitVec.ofNat 32 index])
  | .unary op operand _ => do
      return some (op.apply (← Eval.needed (← passExpr locals operand)))
  | .binary op lhs rhs _ => do
      return some (← op.evaluate (do Eval.needed (← passExpr locals lhs))
        (do Eval.needed (← passExpr locals rhs)))
  | .shl value amount _ => do
      return some ((← Eval.needed (← passExpr locals value)) <<< amount)
  | .call function args _ _ => do aside (calls function (← passArgs locals args))
  | .builtin kind args span => do
      let args ← passArgs locals args
      note (.calls kind, span)
      let answer ← aside (Eval.ask host kind args)
      return if kind.result.hasValue then some answer else none

/-- The values of arguments, from left to right. -/
def passArgs (locals : Locals) : List Expr → Eval (State × List Passage) (List Word)
  | [] => return []
  | e :: rest => do
      let value ← Eval.needed (← passExpr locals e)
      return value :: (← passArgs locals rest)

end

/-- The value of an expression that has one. -/
def passWord (locals : Locals) (e : Expr) : Eval (State × List Passage) Word := do
  Eval.needed (← passExpr host calls locals e)

mutual

/-- Evaluates a statement; an assignment to storage is noted once its value is known. -/
def passStmt (rounds : Nat) (locals : Locals) : Stmt → Eval (State × List Passage) (Flow Locals)
  | .letIn index value _ | .set index value _ => do
      return .next (locals.set index (some (← passWord host calls locals value)))
  | .store slot value span => do
      let value ← passWord host calls locals value
      note (.writesStorage, span)
      let _ ← aside (Eval.ask host .storageStore [BitVec.ofNat 32 slot, value])
      return .next locals
  | .ifThen cond yes no _ => do
      if (← passWord host calls locals cond) = 0 then passStmts rounds locals no
      else passStmts rounds locals yes
  | .whileDo cond body _ =>
      Flow.loop (fun locals => passWord host calls locals cond)
        (fun locals => passStmts rounds locals body) rounds locals
  | .returns none _ => return .returned none
  | .returns (some value) _ => return .returned (← passExpr host calls locals value)
  | .require cond _ => do
      if (← passWord host calls locals cond) = 0 then throw .trapped
      else return .next locals
  | .eval value _ => do
      let _ ← passExpr host calls locals value
      return .next locals

/-- Evaluates statements in order, up to the first that returns. -/
def passStmts (rounds : Nat) (locals : Locals) :
    List Stmt → Eval (State × List Passage) (Flow Locals)
  | [] => return .next locals
  | s :: rest => do
      (← passStmt rounds locals s).andThen fun locals => passStmts rounds locals rest

end

/-- Evaluates the body of a function on arguments and notes what it passes. -/
def passFunction (f : Function) (rounds : Nat) (args : List Word) :
    Eval (State × List Passage) (Option Word) := do
  if args.length ≠ f.paramCount then throw .stuck
  Lang.resultOf f.result.hasValue (← passStmts host calls rounds (f.entry args) f.body)

end

/-! ### Loops -/

mutual

/-- The loops in a statement. -/
def loops : Stmt → List Stmt
  | .whileDo cond body span => .whileDo cond body span :: loopsOf body
  | .ifThen _ yes no _ => loopsOf yes ++ loopsOf no
  | _ => []

/-- The loops in statements. -/
def loopsOf : List Stmt → List Stmt
  | [] => []
  | s :: rest => loops s ++ loopsOf rest

end

/-- Both passages stand in one of the loops. -/
def InOneLoop (among : List Stmt) (a b : Passage) : Prop :=
  ∃ loop ∈ among, a ∈ stmtEvents loop ∧ b ∈ stmtEvents loop

theorem inOneLoop_of_mem {among : List Stmt} {loop : Stmt} (mem : loop ∈ among) :
    ∀ a ∈ stmtEvents loop, ∀ b ∈ stmtEvents loop, InOneLoop among a b :=
  fun _ ha _ hb => ⟨loop, mem, ha, hb⟩

/-! ### Notes follow the text -/

/-- The events of arguments, in the order of evaluation. -/
def argsEvents (args : List Expr) : List Passage :=
  (Expr.nodesOfList args).filterMap Event.ofNode?

section

attribute [local simp] exprEvents argsEvents Expr.nodes Expr.nodesOfList Event.ofNode?

theorem exprEvents_binary (op : Lang.BinaryOp) (lhs rhs : Expr) (span : Span) :
    exprEvents (.binary op lhs rhs span) = exprEvents lhs ++ exprEvents rhs := by
  simp

theorem exprEvents_unary (op : Lang.UnaryOp) (operand : Expr) (span : Span) :
    exprEvents (.unary op operand span) = exprEvents operand := by
  simp

theorem exprEvents_shl (value : Expr) (amount : Nat) (span : Span) :
    exprEvents (.shl value amount span) = exprEvents value := by
  simp

theorem exprEvents_call (function : Nat) (args : List Expr) (result : Lang.Ty) (span : Span) :
    exprEvents (.call function args result span) = argsEvents args := by
  simp

theorem exprEvents_builtin (kind : Lang.Builtin) (args : List Expr) (span : Span) :
    exprEvents (.builtin kind args span) = argsEvents args ++ [(.calls kind, span)] := by
  simp

theorem argsEvents_cons (e : Expr) (rest : List Expr) :
    argsEvents (e :: rest) = exprEvents e ++ argsEvents rest := by
  simp

end

section

variable {State : Type} {host : Host State} {calls : Calls State}
  {again : Passage → Passage → Prop} {locals : Locals} {rounds : Nat}

theorem passArgs_notes {args : List Expr}
    (each : ∀ a ∈ args,
      Notes again (exprEvents a) (passExpr host calls locals a) (evalExpr host calls locals a)) :
    Notes again (argsEvents args) (passArgs host calls locals args)
      (evalArgs host calls locals args) := by
  induction args with
  | nil => exact .pure _
  | cons e es ih =>
      obtain ⟨first, others⟩ := List.forall_mem_cons.1 each
      rw [argsEvents_cons, passArgs, evalArgs]
      refine first.bind fun value => ?_
      exact (Notes.needed value).bind_first fun w => (ih others).bind_last fun ws => .pure _

/-- An expression passes the calls in it in the order of evaluation. -/
theorem passExpr_notes (e : Expr) :
    Notes again (exprEvents e) (passExpr host calls locals e) (evalExpr host calls locals e) := by
  induction e with
  | int value span => exact .pure _
  | bool value span => exact .pure _
  | var index type span =>
      rw [passExpr, evalExpr]
      exact (Notes.needed _).bind_last fun _ => .pure _
  | slot index type span =>
      rw [passExpr, evalExpr, Eval.map_eq_bind, Eval.map_eq_bind]
      exact (Notes.aside _).bind_last fun _ => .pure _
  | unary op operand span ih =>
      rw [passExpr, evalExpr, exprEvents_unary]
      exact ih.bind_last fun value => (Notes.needed value).bind_last fun _ => .pure _
  | binary op lhs rhs span ihl ihr =>
      rw [passExpr, evalExpr, exprEvents_binary]
      have left := ihl.bind_last fun value => Notes.needed value
      have right := ihr.bind_last fun value => Notes.needed value
      exact (left.evaluate op right).bind_last fun _ => .pure _
  | shl value amount span ih =>
      rw [passExpr, evalExpr, exprEvents_shl]
      exact ih.bind_last fun value => (Notes.needed value).bind_last fun _ => .pure _
  | call function args result span ih =>
      rw [passExpr, evalExpr, exprEvents_call]
      exact (passArgs_notes ih).bind_last fun words => .aside _
  | builtin kind args span ih =>
      rw [passExpr, evalExpr, exprEvents_builtin]
      refine (passArgs_notes ih).bind fun words => ?_
      exact .note_bind _ ((Notes.aside _).bind_last fun _ => .pure _)

theorem passWord_notes (e : Expr) :
    Notes again (exprEvents e) (passWord host calls locals e) (evalWord host calls locals e) :=
  (passExpr_notes e).bind_last fun value => .needed value

theorem passStmts_notes_of_forall {body : List Stmt}
    (each : ∀ s ∈ body, (∀ loop ∈ loops s,
        ∀ a ∈ stmtEvents loop, ∀ b ∈ stmtEvents loop, again a b) →
      ∀ locals, Notes again (stmtEvents s) (passStmt host calls rounds locals s)
        (evalStmt host calls rounds locals s))
    (back : ∀ loop ∈ loopsOf body, ∀ a ∈ stmtEvents loop, ∀ b ∈ stmtEvents loop, again a b)
    (locals : Locals) :
    Notes again (blockEvents body) (passStmts host calls rounds locals body)
      (evalStmts host calls rounds locals body) := by
  induction body generalizing locals with
  | nil => exact .pure _
  | cons s rest ih =>
      obtain ⟨first, others⟩ := List.forall_mem_cons.1 each
      have here := first fun loop mem => back loop (List.mem_append_left _ mem)
      have there := ih others fun loop mem => back loop (List.mem_append_right _ mem)
      rw [blockEvents, passStmts, evalStmts]
      exact (here locals).bind fun flow => .andThen flow there

/-- A statement passes its text in order, up to the start of a round of a loop. -/
theorem passStmt_notes (s : Stmt) :
    (∀ loop ∈ loops s, ∀ a ∈ stmtEvents loop, ∀ b ∈ stmtEvents loop, again a b) →
    ∀ locals, Notes again (stmtEvents s) (passStmt host calls rounds locals s)
      (evalStmt host calls rounds locals s) := by
  induction s with
  | letIn index value span =>
      intro _ locals
      rw [passStmt, evalStmt, stmtEvents]
      exact (passWord_notes value).bind_last fun _ => .pure _
  | set index value span =>
      intro _ locals
      rw [passStmt, evalStmt, stmtEvents]
      exact (passWord_notes value).bind_last fun _ => .pure _
  | store slot value span =>
      intro _ locals
      rw [passStmt, evalStmt, stmtEvents]
      refine (passWord_notes value).bind fun w => ?_
      exact .note_bind _ ((Notes.aside _).bind_last fun _ => .pure _)
  | ifThen cond yes no span ihy ihn =>
      intro back locals
      have first := passStmts_notes_of_forall ihy
        fun loop mem => back loop (List.mem_append_left _ mem)
      have second := passStmts_notes_of_forall ihn
        fun loop mem => back loop (List.mem_append_right _ mem)
      rw [passStmt, evalStmt, stmtEvents, List.append_assoc]
      refine (passWord_notes cond).bind fun w => ?_
      split
      · exact (second locals).mono (List.sublist_append_right _ _)
      · exact (first locals).mono (List.sublist_append_left _ _)
  | whileDo cond body span ih =>
      intro back locals
      have inner := passStmts_notes_of_forall ih
        fun loop mem => back loop (List.mem_cons_of_mem _ mem)
      have all := back (.whileDo cond body span) List.mem_cons_self
      have test : (exprEvents cond).Sublist (stmtEvents (.whileDo cond body span)) := by
        simp [stmtEvents, List.append_assoc]
      have round : (blockEvents body).Sublist (stmtEvents (.whileDo cond body span)) := by
        simp [stmtEvents]
      rw [passStmt, evalStmt]
      exact .loop all (fun _ => (passWord_notes cond).mono test)
        (fun locals => (inner locals).mono round) rounds locals
  | returns value span =>
      intro _ locals
      cases value with
      | none => exact .pure _
      | some value =>
          rw [passStmt, evalStmt, stmtEvents]
          exact (passExpr_notes value).bind_last fun _ => .pure _
  | require cond span =>
      intro _ locals
      have test : Notes again (exprEvents cond) (passStmt host calls rounds locals
          (.require cond span)) (evalStmt host calls rounds locals (.require cond span)) := by
        rw [passStmt, evalStmt]
        refine (passWord_notes cond).bind_last fun w => ?_
        split
        · exact .throw _
        · exact .pure _
      exact test.mono (List.sublist_cons_self _ _)
  | eval value span =>
      intro _ locals
      rw [passStmt, evalStmt, stmtEvents]
      exact (passExpr_notes value).bind_last fun _ => .pure _

/-- An activation does what evaluation does. What it passes follows the text of the function, up to
going back in loops. -/
theorem passFunction_notes (f : Function) (args : List Word) :
    Notes (InOneLoop (loopsOf f.body)) (blockEvents f.body)
      (passFunction host calls f rounds args) (f.eval host calls rounds args) := by
  have body : Notes (InOneLoop (loopsOf f.body)) (blockEvents f.body)
      (passStmts host calls rounds (f.entry args) f.body)
      (evalStmts host calls rounds (f.entry args) f.body) :=
    passStmts_notes_of_forall (fun s _ => passStmt_notes s)
      (fun loop mem => inOneLoop_of_mem mem) (f.entry args)
  unfold passFunction Lowered.Function.eval
  split
  · exact .throw _
  · exact body.bind_last fun flow => .resultOf _ flow

end

end Workbench.Security
