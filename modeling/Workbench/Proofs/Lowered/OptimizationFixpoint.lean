import Workbench.Proofs.Lowered.OptimizationCounts
import Workbench.Proofs.Lowered.Shifts

/-!
# One pass leaves nothing to do

A second pass with the same options finds nothing to change, and a pass counts no change exactly if
it returns the contract that it was given.

Where a pass counts nothing it returns what it was given, and what it counts shows in the size of
the text. The count therefore tells whether anything happened, and it can be read from a text down
to its parts: where nothing is changed, nothing below is. That is what carries the second pass,
since what a change puts in the place of an operator or a statement is a constant or made of parts
that the pass has already left.
-/

namespace Workbench.Lowered

open Source (Span)
open Lang (Ty UnaryOp BinaryOp Builtin)

namespace Optimization

open Counted (Idle)

/-! ### Expressions -/

variable {options : Options}

theorem idle_unary {op : UnaryOp} {operand : Expr} {span : Span} :
    (expr options (.unary op operand span)).Idle ↔
      (expr options operand).Idle ∧
        (unary options op (expr options operand).value span).Idle := by
  rw [expr, Counted.idle_bind_iff]

theorem idle_binary {op : BinaryOp} {lhs rhs : Expr} {span : Span} :
    (expr options (.binary op lhs rhs span)).Idle ↔
      (expr options lhs).Idle ∧ (expr options rhs).Idle ∧
        (binary options op (expr options lhs).value (expr options rhs).value span).Idle := by
  rw [expr, Counted.idle_bind_iff, Counted.idle_bind_iff]

theorem idle_shl {value : Expr} {amount : Nat} {span : Span} :
    (expr options (.shl value amount span)).Idle ↔ (expr options value).Idle := by
  simp [expr]

theorem idle_exprs {args : List Expr} :
    (exprs options args).Idle ↔ ∀ a ∈ args, (expr options a).Idle := by
  induction args with
  | nil => simp [exprs]
  | cons a rest ih => simp [exprs, ih]

theorem idle_call {function : Nat} {args : List Expr} {result : Ty} {span : Span} :
    (expr options (.call function args result span)).Idle ↔
      ∀ a ∈ args, (expr options a).Idle := by
  simp [expr, idle_exprs]

theorem idle_builtin {kind : Builtin} {args : List Expr} {span : Span} :
    (expr options (.builtin kind args span)).Idle ↔ ∀ a ∈ args, (expr options a).Idle := by
  simp [expr, idle_exprs]

theorem idle_of_literal {e : Expr} (literal : e.literal?.isSome) : (expr options e).Idle := by
  cases e <;> first | rfl | contradiction

/-- Without a counted change an expression stays as it is. -/
theorem expr_of_idle {e : Expr} (idle : (expr options e).Idle) : (expr options e).value = e := by
  induction e with
  | unary op operand span ih =>
      obtain ⟨below, here⟩ := idle_unary.1 idle
      rw [value_unary, (unary_becomes options op _ span).value_eq here, ih below]
  | binary op lhs rhs span ihl ihr =>
      obtain ⟨left, right, here⟩ := idle_binary.1 idle
      rw [value_binary, (binary_becomes options op _ _ span).value_eq here, ihl left, ihr right]
  | shl value amount span ih => rw [value_shl, ih (idle_shl.1 idle)]
  | call function args result span ih =>
      have same := List.map_congr_left fun a mem => ih a mem (idle_call.1 idle a mem)
      rw [value_call, same, List.map_id']
  | builtin kind args span ih =>
      have same := List.map_congr_left fun a mem => ih a mem (idle_builtin.1 idle a mem)
      rw [value_builtin, same, List.map_id']
  | _ => rfl

/-- What becomes of an operator on operands that a pass leaves is left by it. -/
theorem Becomes.settled {plain : Expr} {operands : List Expr} {x : Counted Expr}
    (becomes : Becomes plain operands x) (below : ∀ e ∈ operands, (expr options e).Idle)
    (here : x.Idle → (expr options plain).Idle) : (expr options x.value).Idle := by
  cases becomes with
  | same idle value =>
      rw [value]
      exact here idle
  | literal _ value => exact idle_of_literal value
  | operand _ mem => exact below _ mem
  | inner _ mem => exact (idle_unary.1 (below _ mem)).1
  | shift _ _ mem value =>
      rw [value]
      exact idle_shl.2 (below _ mem)

/-- An optimized expression is left by a second pass. -/
theorem expr_settled (options : Options) (e : Expr) :
    (expr options (expr options e).value).Idle := by
  induction e with
  | unary op operand span ih =>
      rw [value_unary]
      -- an operator that stays is asked about the same operand again
      refine (unary_becomes options op _ span).settled (by simpa using ih) fun idle => ?_
      exact idle_unary.2 ⟨ih, by rwa [expr_of_idle ih]⟩
  | binary op lhs rhs span ihl ihr =>
      rw [value_binary]
      refine (binary_becomes options op _ _ span).settled (by simp [ihl, ihr]) fun idle => ?_
      exact idle_binary.2 ⟨ihl, ihr, by rwa [expr_of_idle ihl, expr_of_idle ihr]⟩
  | shl value amount span ih =>
      rw [value_shl]
      exact idle_shl.2 ih
  | call function args result span ih =>
      rw [value_call]
      exact idle_call.2 (List.forall_mem_map.2 ih)
  | builtin kind args span ih =>
      rw [value_builtin]
      exact idle_builtin.2 (List.forall_mem_map.2 ih)
  | _ => rfl

/-! ### Statements -/

theorem idle_stmts {body : List Stmt} :
    (stmts options body).Idle ↔ ∀ s ∈ body, (stmt options s).Idle := by
  induction body with
  | nil => simp [stmts]
  | cons s rest ih => simp [stmts, ih]

theorem idle_block {body : List Stmt} :
    (block options body).Idle ↔
      (∀ s ∈ body, (stmt options s).Idle) ∧
        (finishBlock options (stmts options body).value).Idle := by
  rw [block, Counted.idle_bind_iff, idle_stmts]

theorem idle_finishBlock {body : List Stmt} :
    (finishBlock options body).Idle ↔ (finishBlock options body).value = body := by
  have total := total_finishBlock options body
  rw [Idle]
  constructor
  · intro idle
    exact (prefix_finishBlock options body).eq_of_length (by omega)
  · intro same
    rw [same] at total
    omega

/-- A block is cut once. -/
theorem finishBlock_settled (options : Options) (body : List Stmt) :
    (finishBlock options (finishBlock options body).value).Idle := by
  rw [idle_finishBlock]
  by_cases cuts : 3 ≤ options.level
  · simp only [finishBlock, cuts, if_true]
    exact cutUnreachable_idem body
  · simp only [finishBlock, cuts, if_false, Counted.value_pure]

/-- Whether a pass decides a condition. -/
abbrev Decides (options : Options) (value : Bool) (cond : Expr) : Prop :=
  2 ≤ options.level && isBool value (expr options cond).value

theorem idle_assigning {value : Expr} {build : Expr → Stmt} :
    (do return [build (← expr options value)] : Counted (List Stmt)).Idle ↔
      (expr options value).Idle := by
  simp

theorem idle_require {cond : Expr} {span : Span} :
    (stmt options (.require cond span)).Idle ↔
      (expr options cond).Idle ∧ ¬Decides options true cond := by
  rw [stmt, Counted.idle_bind_iff, Decides]
  split
  case isTrue decided => simp [decided, Idle]
  case isFalse undecided => simp [undecided]

theorem idle_ifThen {cond : Expr} {yes no : List Stmt} {span : Span} :
    (stmt options (.ifThen cond yes no span)).Idle ↔
      (expr options cond).Idle ∧ (block options yes).Idle ∧ (block options no).Idle ∧
        ¬Decides options true cond ∧ ¬Decides options false cond := by
  rw [stmt, Counted.idle_bind_iff, Counted.idle_bind_iff, Counted.idle_bind_iff, Decides, Decides]
  split
  case isTrue decided => simp [decided, Idle]
  case isFalse undecided =>
    split
    case isTrue decided => simp [decided, Idle]
    case isFalse undecided' => simp [undecided, undecided']

theorem idle_whileDo {cond : Expr} {body : List Stmt} {span : Span} :
    (stmt options (.whileDo cond body span)).Idle ↔
      (expr options cond).Idle ∧ ¬Decides options false cond ∧ (block options body).Idle := by
  rw [stmt, Counted.idle_bind_iff, Decides]
  split
  case isTrue decided => simp [decided, Idle]
  case isFalse undecided => simp [undecided]

theorem stmts_of_idle_of_forall {body : List Stmt}
    (each : ∀ s ∈ body, (stmt options s).Idle → (stmt options s).value = [s])
    (idle : ∀ s ∈ body, (stmt options s).Idle) : (stmts options body).value = body := by
  induction body with
  | nil => exact value_stmts_nil options
  | cons s rest ih =>
      obtain ⟨first, others⟩ := List.forall_mem_cons.1 each
      obtain ⟨idleFirst, idleRest⟩ := List.forall_mem_cons.1 idle
      rw [value_stmts_cons, first idleFirst, ih others idleRest, List.singleton_append]

theorem block_of_idle_of_forall {body : List Stmt}
    (each : ∀ s ∈ body, (stmt options s).Idle → (stmt options s).value = [s])
    (idle : (block options body).Idle) : (block options body).value = body := by
  obtain ⟨below, here⟩ := idle_block.1 idle
  have same := stmts_of_idle_of_forall each below
  rw [same] at here
  rw [value_block, same, idle_finishBlock.1 here]

/-- Without a counted change a statement stays as it is. -/
theorem stmt_of_idle {s : Stmt} : (stmt options s).Idle → (stmt options s).value = [s] := by
  induction s with
  | letIn index value span =>
      intro idle
      rw [stmt, idle_assigning] at idle
      rw [value_letIn, expr_of_idle idle]
  | set index value span =>
      intro idle
      rw [stmt, idle_assigning] at idle
      rw [value_set, expr_of_idle idle]
  | store slot value span =>
      intro idle
      rw [stmt, idle_assigning] at idle
      rw [value_store, expr_of_idle idle]
  | eval value span =>
      intro idle
      rw [stmt, idle_assigning] at idle
      rw [value_eval, expr_of_idle idle]
  | returns value span =>
      intro idle
      rw [value_returns]
      cases value with
      | none => rfl
      | some value =>
          rw [stmt, idle_assigning] at idle
          rw [Option.map_some, expr_of_idle idle]
  | require cond span =>
      intro idle
      obtain ⟨below, undecided⟩ := idle_require.1 idle
      rw [value_require, if_neg undecided, expr_of_idle below]
  | ifThen cond yes no span ihy ihn =>
      intro idle
      obtain ⟨below, onYes, onNo, notTrue, notFalse⟩ := idle_ifThen.1 idle
      rw [value_ifThen, if_neg notTrue, if_neg notFalse, expr_of_idle below,
        block_of_idle_of_forall ihy onYes, block_of_idle_of_forall ihn onNo]
  | whileDo cond body span ih =>
      intro idle
      obtain ⟨below, notFalse, inside⟩ := idle_whileDo.1 idle
      rw [value_whileDo, if_neg notFalse, expr_of_idle below, block_of_idle_of_forall ih inside]

theorem block_of_idle {body : List Stmt} (idle : (block options body).Idle) :
    (block options body).value = body :=
  block_of_idle_of_forall (fun _ _ => stmt_of_idle) idle

/-- What the statements of a block become is left by a second pass if what each of them becomes
is. -/
theorem block_settled_of_forall {body : List Stmt}
    (each : ∀ s ∈ body, ∀ s' ∈ (stmt options s).value, (stmt options s').Idle) :
    (block options (block options body).value).Idle := by
  have all : ∀ s' ∈ (stmts options body).value, (stmt options s').Idle := by
    induction body with
    | nil => simp [value_stmts_nil]
    | cons s rest ih =>
        obtain ⟨first, others⟩ := List.forall_mem_cons.1 each
        rw [value_stmts_cons]
        exact List.forall_mem_append.2 ⟨first, ih others⟩
  have kept : ∀ s' ∈ (block options body).value, (stmt options s').Idle := by
    intro s' mem
    rw [value_block] at mem
    exact all s' ((prefix_finishBlock options _).subset mem)
  have same := stmts_of_idle_of_forall (fun _ _ => stmt_of_idle) kept
  refine idle_block.2 ⟨kept, ?_⟩
  rw [same, value_block]
  exact finishBlock_settled options _

/-- The statements that take the place of one are left by a second pass. -/
theorem stmt_settled {s : Stmt} : ∀ s' ∈ (stmt options s).value, (stmt options s').Idle := by
  induction s with
  | letIn index value span =>
      rw [value_letIn, List.forall_mem_singleton, stmt, idle_assigning]
      exact expr_settled options value
  | set index value span =>
      rw [value_set, List.forall_mem_singleton, stmt, idle_assigning]
      exact expr_settled options value
  | store slot value span =>
      rw [value_store, List.forall_mem_singleton, stmt, idle_assigning]
      exact expr_settled options value
  | eval value span =>
      rw [value_eval, List.forall_mem_singleton, stmt, idle_assigning]
      exact expr_settled options value
  | returns value span =>
      rw [value_returns, List.forall_mem_singleton]
      cases value with
      | none => rw [Option.map_none, stmt]; rfl
      | some value =>
          rw [Option.map_some, stmt, idle_assigning]
          exact expr_settled options value
  | require cond span =>
      have settled := expr_settled options cond
      rw [value_require]
      split
      · exact List.forall_mem_nil _
      · rw [List.forall_mem_singleton, idle_require, Decides, expr_of_idle settled]
        exact ⟨settled, ‹_›⟩
  | ifThen cond yes no span ihy ihn =>
      have settled := expr_settled options cond
      have onYes := block_settled_of_forall ihy
      have onNo := block_settled_of_forall ihn
      rw [value_ifThen]
      split
      -- a decided condition leaves the statements of a branch, which are settled one by one
      · exact (idle_block.1 onYes).1
      · split
        · exact (idle_block.1 onNo).1
        · rw [List.forall_mem_singleton, idle_ifThen, Decides, Decides, expr_of_idle settled]
          exact ⟨settled, onYes, onNo, ‹_›, ‹_›⟩
  | whileDo cond body span ih =>
      have settled := expr_settled options cond
      rw [value_whileDo]
      split
      · exact List.forall_mem_nil _
      · rw [List.forall_mem_singleton, idle_whileDo, Decides, expr_of_idle settled]
        exact ⟨settled, ‹_›, block_settled_of_forall ih⟩

theorem block_settled (options : Options) (body : List Stmt) :
    (block options (block options body).value).Idle :=
  block_settled_of_forall fun _ _ => stmt_settled

/-! ### Contracts -/

theorem idle_functions {fs : List Function} :
    (functions options fs).Idle ↔ ∀ f ∈ fs, (block options f.body).Idle := by
  induction fs with
  | nil => simp [functions]
  | cons f rest ih => simp [functions, ih]

theorem functions_of_idle {fs : List Function} (idle : (functions options fs).Idle) :
    (functions options fs).value = fs := by
  have same : ∀ f ∈ fs, function options f = f := fun f mem => by
    rw [function, block_of_idle (idle_functions.1 idle f mem)]
  rw [functions_value, List.map_congr_left same, List.map_id']

theorem functions_settled (options : Options) (fs : List Function) :
    (functions options (functions options fs).value).Idle := by
  rw [idle_functions, functions_value, List.forall_mem_map]
  exact fun f _ => block_settled options f.body

end Optimization

open Optimization (Options)
open Optimization.Counted (Idle)

variable {options : Options}

theorem Contract.idle_optimize {c : Contract} :
    (c.optimize options).Idle ↔ (Optimization.functions options c.functions).Idle := by
  simp [optimize]

/-- A second pass changes nothing and counts nothing, and a pass counts no change exactly if it
returns the contract that it was given. -/
theorem Contract.optimize_settles (options : Options) (c : Contract) :
    let first := c.optimize options
    let second := first.value.optimize options
    second.value = first.value ∧ second.report = .none ∧
      (first.report.total = 0 ↔ first.value = c) := by
  have same {c : Contract} (idle : (c.optimize options).Idle) : (c.optimize options).value = c := by
    have functions := Optimization.functions_of_idle (c.idle_optimize.1 idle)
    show { c with functions := _ } = c
    rw [functions]
  have settled : ((c.optimize options).value.optimize options).Idle :=
    idle_optimize.2 (Optimization.functions_settled options c.functions)
  refine ⟨same settled, settled.report_eq, same, fun unchanged => ?_⟩
  have shrinks := c.optimize_shrinks options
  rw [Optimization.Counted.Shrinks, unchanged] at shrinks
  omega

end Workbench.Lowered
