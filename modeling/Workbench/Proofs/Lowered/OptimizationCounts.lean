import Workbench.Proofs.Lowered.Nodes
import Workbench.Proofs.Lowered.Rewrites

/-!
# Counts and sizes

What a pass counts can be told from the text that it returns: every change that is counted takes at
least one node out of it. An operator is changed at most once, into a constant or into something
made of its operands, and what is cut off a block is counted statement by statement.
-/

namespace Workbench.Lowered

open Source (Span)
open Lang (Ty UnaryOp BinaryOp Builtin)

namespace Optimization

/-! ### Counts -/

namespace Counted

variable {α β : Type}

/-- No change was counted. -/
def Idle (x : Counted α) : Prop :=
  x.report.total = 0

@[simp] theorem idle_pure (a : α) : (pure a : Counted α).Idle :=
  rfl

@[simp] theorem idle_bind_iff {x : Counted α} {f : α → Counted β} :
    (x >>= f).Idle ↔ x.Idle ∧ (f x.value).Idle := by
  simp [Idle]

theorem Idle.report_eq {x : Counted α} (idle : x.Idle) : x.report = .none := by
  obtain ⟨value, folded, simplified, removed, strengthReduced⟩ := x
  simp only [Idle, Report.total] at idle
  obtain ⟨rfl, rfl, rfl, rfl⟩ :
      folded = 0 ∧ simplified = 0 ∧ removed = 0 ∧ strengthReduced = 0 := by
    omega
  rfl

theorem value_simplified (a : α) : (simplified a).value = a :=
  rfl

@[simp] theorem total_simplified (a : α) : (simplified a).report.total = 1 :=
  rfl

@[simp] theorem total_removed (n : Nat) (a : α) : (removed n a).report.total = n := by
  simp [removed, Report.total, Report.none]

/-- What is left and the changes that were counted come to no more than a size together. -/
def Shrinks (size : α → Nat) (bound : Nat) (x : Counted α) : Prop :=
  size x.value + x.report.total ≤ bound

namespace Shrinks

variable {size : α → Nat} {size' : β → Nat} {m n : Nat}

theorem pure {a : α} (within : size a ≤ n) : (Pure.pure a : Counted α).Shrinks size n :=
  within

/-- The changes of the first part are made up for by what it became smaller. -/
theorem bind {x : Counted α} {f : α → Counted β} (first : x.Shrinks size m)
    (second : (f x.value).Shrinks size' (n + size x.value)) :
    (x >>= f).Shrinks size' (n + m) := by
  simp only [Shrinks, value_bind, report_bind, Report.total_add] at first second ⊢
  omega

end Shrinks

end Counted

open Counted (Idle Shrinks)

/-! ### Single operators -/

/-- What becomes of an operator: it stays, with nothing counted, or it is changed once, into a
constant or into something made of its operands. -/
inductive Becomes (plain : Expr) (operands : List Expr) : Counted Expr → Prop where
  | same {x : Counted Expr} (idle : x.Idle) (value : x.value = plain) : Becomes plain operands x
  | literal {x : Counted Expr} (once : x.report.total = 1) (value : x.value.literal?.isSome) :
      Becomes plain operands x
  | operand {x : Counted Expr} (once : x.report.total = 1) (value : x.value ∈ operands) :
      Becomes plain operands x
  /-- What was negated twice. -/
  | inner {x : Counted Expr} {span : Span} (once : x.report.total = 1)
      (value : .unary .not x.value span ∈ operands) : Becomes plain operands x
  /-- One of two operands is the constant. -/
  | shift {x : Counted Expr} {operand : Expr} {amount : Nat} {span : Span}
      (once : x.report.total = 1) (two : operands.length = 2) (mem : operand ∈ operands)
      (value : x.value = .shl operand amount span) : Becomes plain operands x

theorem unary_becomes (options : Options) (op : UnaryOp) (operand : Expr) (span : Span) :
    Becomes (.unary op operand span) [operand] (unary options op operand span) := by
  rcases unary_cases options op operand span with ⟨value, s, rfl, rfl, eq⟩ |
    ⟨value, s, rfl, rfl, eq⟩ | ⟨inner, s, rfl, rfl, eq⟩ | eq <;> rw [eq]
  · exact .literal rfl rfl
  · exact .literal rfl rfl
  · exact .inner rfl List.mem_cons_self
  · exact .same rfl rfl

theorem Identity.becomes {op : BinaryOp} {lhs rhs e : Expr} (identity : Identity op lhs rhs e)
    (plain : Expr) : Becomes plain [lhs, rhs] (.simplified e) := by
  cases identity with
  | left => exact .operand rfl List.mem_cons_self
  | right => exact .operand rfl (List.mem_cons_of_mem _ List.mem_cons_self)
  | settled _ value => exact .literal rfl (Option.isSome_of_eq_some value)
  | absorbLeft _ _ value => exact .literal rfl (Option.isSome_of_eq_some value)
  | absorbRight _ _ value => exact .literal rfl (Option.isSome_of_eq_some value)

theorem reduceStrength_becomes (options : Options) (op : BinaryOp) (lhs rhs : Expr) (span : Span) :
    Becomes (.binary op lhs rhs span) [lhs, rhs] (reduceStrength options op lhs rhs span) := by
  unfold reduceStrength
  split
  · split
    · exact .shift rfl rfl List.mem_cons_self rfl
    · exact .shift rfl rfl (List.mem_cons_of_mem _ List.mem_cons_self) rfl
    · exact .same rfl rfl
  · exact .same rfl rfl

theorem binary_becomes (options : Options) (op : BinaryOp) (lhs rhs : Expr) (span : Span) :
    Becomes (.binary op lhs rhs span) [lhs, rhs] (binary options op lhs rhs span) := by
  rcases binary_cases options op lhs rhs span with ⟨e, folds, eq⟩ | ⟨e, identity, eq⟩ | eq <;>
    rw [eq]
  · obtain ⟨_, _, _, -, -, literal, -⟩ := fold?_spec folds
    exact .literal rfl (Option.isSome_of_eq_some literal)
  · exact identity.becomes _
  · exact reduceStrength_becomes options op lhs rhs span

theorem Becomes.value_eq {plain : Expr} {operands : List Expr} {x : Counted Expr}
    (becomes : Becomes plain operands x) (idle : x.Idle) : x.value = plain := by
  cases becomes with
  | same _ value => exact value
  | literal once | operand once | inner once | shift once =>
      rw [Idle, once] at idle
      contradiction

/-! ### Blocks that are cut -/

theorem prefix_cutUnreachable (body : List Stmt) : cutUnreachable body <+: body := by
  induction body with
  | nil => exact List.prefix_rfl
  | cons s rest ih =>
      rw [cutUnreachable]
      split
      · exact List.cons_prefix_cons.2 ⟨rfl, List.nil_prefix⟩
      · exact List.cons_prefix_cons.2 ⟨rfl, ih⟩

theorem prefix_finishBlock (options : Options) (body : List Stmt) :
    (finishBlock options body).value <+: body := by
  unfold finishBlock
  split
  · exact prefix_cutUnreachable body
  · exact List.prefix_rfl

/-- What is cut off a block is counted. -/
theorem total_finishBlock (options : Options) (body : List Stmt) :
    (finishBlock options body).value.length + (finishBlock options body).report.total =
      body.length := by
  have short := (prefix_finishBlock options body).length_le
  unfold finishBlock at short ⊢
  split at short
  · rw [if_pos ‹_›, Counted.total_removed]
    exact Nat.add_sub_cancel' short
  · rw [if_neg ‹_›]
    rfl

variable {options : Options}

/-! ### Sizes -/

def exprSize (e : Expr) : Nat :=
  e.nodes.length

def exprsSize (args : List Expr) : Nat :=
  (Expr.nodesOfList args).length

def blockSize (body : List Stmt) : Nat :=
  (Stmt.nodesOfBlock body).length

theorem exprsSize_cons (e : Expr) (rest : List Expr) :
    exprsSize (e :: rest) = exprsSize rest + exprSize e := by
  rw [exprsSize, Expr.nodesOfList, List.length_append, Nat.add_comm]
  rfl

theorem blockSize_append (body rest : List Stmt) :
    blockSize (body ++ rest) = blockSize rest + blockSize body := by
  rw [blockSize, Stmt.nodesOfBlock_append, List.length_append, Nat.add_comm]
  rfl

theorem blockSize_cons (s : Stmt) (rest : List Stmt) :
    blockSize (s :: rest) = blockSize rest + blockSize [s] :=
  blockSize_append [s] rest

/-- Every other operand has a node. -/
theorem exprSize_add_le {e : Expr} {operands : List Expr} (mem : e ∈ operands) :
    exprSize e + operands.length ≤ exprsSize operands + 1 := by
  induction mem with
  | head rest =>
      have others : rest.length ≤ exprsSize rest := Expr.length_le_nodesOfList rest
      rw [exprsSize_cons, List.length_cons]
      omega
  | tail a _ ih =>
      have first : 0 < exprSize a := a.length_nodes_pos
      rw [exprsSize_cons, List.length_cons]
      omega

theorem exprSize_of_literal {e : Expr} (literal : e.literal?.isSome) : exprSize e = 1 := by
  cases e <;> first | rfl | contradiction

theorem exprSize_unary (op : UnaryOp) (operand : Expr) (span : Span) :
    exprSize (.unary op operand span) = 1 + exprSize operand := by
  simp [exprSize, Expr.nodes, Nat.add_comm]

theorem exprSize_binary (op : BinaryOp) (lhs rhs : Expr) (span : Span) :
    exprSize (.binary op lhs rhs span) = 1 + exprSize rhs + exprSize lhs := by
  simp only [exprSize, Expr.nodes, List.length_append, List.length_singleton]
  omega

theorem exprSize_shl (value : Expr) (amount : Nat) (span : Span) :
    exprSize (.shl value amount span) = 1 + exprSize value := by
  simp [exprSize, Expr.nodes, Nat.add_comm]

theorem exprSize_call (function : Nat) (args : List Expr) (result : Ty) (span : Span) :
    exprSize (.call function args result span) = 1 + exprsSize args := by
  simp [exprSize, exprsSize, Expr.nodes, Nat.add_comm]

theorem exprSize_builtin (kind : Builtin) (args : List Expr) (span : Span) :
    exprSize (.builtin kind args span) = 1 + exprsSize args := by
  simp [exprSize, exprsSize, Expr.nodes, Nat.add_comm]

/-- A counted change of an operator takes a node out of it. -/
theorem Becomes.shrinks {plain : Expr} {operands : List Expr} {x : Counted Expr}
    (becomes : Becomes plain operands x) (some : operands ≠ [])
    (whole : exprSize plain = 1 + exprsSize operands) : x.Shrinks exprSize (exprSize plain) := by
  have length := List.length_pos_iff.2 some
  rw [Shrinks]
  cases becomes with
  | same idle value => exact Nat.le_of_eq (by rw [value, idle, Nat.add_zero])
  | literal once value =>
      -- a constant has one node, and the operator had another one besides its operands
      have operands : operands.length ≤ exprsSize operands := Expr.length_le_nodesOfList operands
      rw [exprSize_of_literal value]
      omega
  | operand once mem =>
      have operand := exprSize_add_le mem
      omega
  | inner once mem =>
      have operand := exprSize_add_le mem
      rw [exprSize_unary] at operand
      omega
  | shift once two mem value =>
      have operand := exprSize_add_le mem
      rw [value, exprSize_shl]
      omega

theorem unary_shrinks (op : UnaryOp) (operand : Expr) (span : Span) :
    (unary options op operand span).Shrinks exprSize (1 + exprSize operand) := by
  rw [← exprSize_unary op operand span]
  exact (unary_becomes options op operand span).shrinks (List.cons_ne_nil _ _)
    (by rw [exprSize_unary, exprsSize_cons, exprsSize, Expr.nodesOfList, List.length_nil,
      Nat.zero_add])

theorem binary_shrinks (op : BinaryOp) (lhs rhs : Expr) (span : Span) :
    (binary options op lhs rhs span).Shrinks exprSize (1 + exprSize lhs + exprSize rhs) := by
  rw [Nat.add_right_comm, ← exprSize_binary op lhs rhs span]
  exact (binary_becomes options op lhs rhs span).shrinks (List.cons_ne_nil _ _)
    (by rw [exprSize_binary, exprsSize_cons, exprsSize_cons, exprsSize, Expr.nodesOfList,
      List.length_nil, Nat.zero_add, Nat.add_assoc])

theorem exprs_shrink_of_forall {args : List Expr}
    (each : ∀ a ∈ args, (expr options a).Shrinks exprSize (exprSize a)) :
    (exprs options args).Shrinks exprsSize (exprsSize args) := by
  induction args with
  | nil => exact Nat.le_refl 0
  | cons a rest ih =>
      obtain ⟨first, others⟩ := List.forall_mem_cons.1 each
      rw [exprs, exprsSize_cons]
      refine first.bind ?_
      rw [Nat.add_comm]
      refine (ih others).bind (.pure (Nat.le_of_eq ?_))
      rw [exprsSize_cons, Nat.add_comm]

/-- A pass over an expression takes out a node for every change. -/
theorem expr_shrinks (e : Expr) : (expr options e).Shrinks exprSize (exprSize e) := by
  induction e with
  | unary op operand span ih =>
      rw [expr, exprSize_unary]
      exact ih.bind (unary_shrinks op _ span)
  | binary op lhs rhs span ihl ihr =>
      rw [expr, exprSize_binary]
      refine ihl.bind ?_
      rw [Nat.add_right_comm]
      exact ihr.bind (binary_shrinks op _ _ span)
  | shl value amount span ih =>
      rw [expr, exprSize_shl]
      exact ih.bind (.pure (Nat.le_of_eq (exprSize_shl ..)))
  | call function args result span ih =>
      rw [expr, exprSize_call]
      exact (exprs_shrink_of_forall ih).bind (.pure (Nat.le_of_eq (exprSize_call ..)))
  | builtin kind args span ih =>
      rw [expr, exprSize_builtin]
      exact (exprs_shrink_of_forall ih).bind (.pure (Nat.le_of_eq (exprSize_builtin ..)))
  | _ => exact Nat.le_refl _

theorem stmts_shrink_of_forall {body : List Stmt}
    (each : ∀ s ∈ body, (stmt options s).Shrinks blockSize (blockSize [s])) :
    (stmts options body).Shrinks blockSize (blockSize body) := by
  induction body with
  | nil =>
      rw [stmts]
      exact Nat.le_refl _
  | cons s rest ih =>
      obtain ⟨first, others⟩ := List.forall_mem_cons.1 each
      rw [stmts, blockSize_cons]
      refine first.bind ?_
      rw [Nat.add_comm]
      refine (ih others).bind (.pure (Nat.le_of_eq ?_))
      rw [blockSize_append, Nat.add_comm]

theorem finishBlock_shrinks (body : List Stmt) :
    (finishBlock options body).Shrinks blockSize (blockSize body) := by
  have total := total_finishBlock options body
  obtain ⟨cut, whole⟩ := prefix_finishBlock options body
  have size := congrArg blockSize whole
  have length := congrArg List.length whole
  have rest : cut.length ≤ blockSize cut := Stmt.length_le_nodesOfBlock cut
  rw [blockSize_append] at size
  rw [List.length_append] at length
  rw [Shrinks]
  omega

theorem block_shrinks_of_forall {body : List Stmt}
    (each : ∀ s ∈ body, (stmt options s).Shrinks blockSize (blockSize [s])) :
    (block options body).Shrinks blockSize (blockSize body) := by
  rw [block, ← Nat.zero_add (blockSize body)]
  refine (stmts_shrink_of_forall each).bind ?_
  rw [Nat.zero_add]
  exact finishBlock_shrinks _

theorem assigning_shrinks {build : Expr → Stmt}
    (shape : ∀ e, blockSize [build e] = 1 + exprSize e) (value : Expr) :
    (do return [build (← expr options value)] : Counted (List Stmt)).Shrinks blockSize
      (blockSize [build value]) := by
  rw [shape]
  exact (expr_shrinks value).bind (.pure (Nat.le_of_eq (shape _)))

theorem blockSize_ifThen (cond : Expr) (yes no : List Stmt) (span : Span) :
    blockSize [.ifThen cond yes no span] =
      1 + blockSize no + blockSize yes + exprSize cond := by
  simp only [blockSize, exprSize, Stmt.nodesOfBlock, Stmt.nodes, List.append_nil, List.length_cons,
    List.length_append, List.length_map]
  omega

theorem blockSize_whileDo (cond : Expr) (body : List Stmt) (span : Span) :
    blockSize [.whileDo cond body span] = 1 + blockSize body + exprSize cond := by
  simp only [blockSize, exprSize, Stmt.nodesOfBlock, Stmt.nodes, List.append_nil, List.length_cons,
    List.length_append, List.length_map]
  omega

/-- A pass over a statement takes out a node for every change. -/
theorem stmt_shrinks (s : Stmt) : (stmt options s).Shrinks blockSize (blockSize [s]) := by
  -- statements with nothing below them but one expression
  have shape {s : Stmt} {e : Expr} (nodes : s.nodes = .stmt s :: e.nodes.map .expr) :
      blockSize [s] = 1 + exprSize e := by
    simp [blockSize, exprSize, Stmt.nodesOfBlock, nodes, Nat.add_comm]
  induction s with
  | letIn index value span =>
      rw [stmt]
      exact assigning_shrinks (fun e => shape (by rw [Stmt.nodes])) value
  | set index value span =>
      rw [stmt]
      exact assigning_shrinks (fun e => shape (by rw [Stmt.nodes])) value
  | store slot value span =>
      rw [stmt]
      exact assigning_shrinks (fun e => shape (by rw [Stmt.nodes])) value
  | eval value span =>
      rw [stmt]
      exact assigning_shrinks (fun e => shape (by rw [Stmt.nodes])) value
  | returns value span =>
      rw [stmt.eq_def]
      cases value with
      | none => exact Nat.le_refl _
      | some value => exact assigning_shrinks (fun e => shape (by rw [Stmt.nodes])) value
  | require cond span =>
      have size (c : Expr) : blockSize [.require c span] = 1 + exprSize c :=
        shape (by rw [Stmt.nodes])
      rw [stmt, size]
      refine (expr_shrinks cond).bind ?_
      split
      · exact Nat.le_add_right 1 _
      · exact .pure (Nat.le_of_eq (size _))
  | ifThen cond yes no span ihy ihn =>
      rw [stmt, blockSize_ifThen]
      refine (expr_shrinks cond).bind ?_
      rw [Nat.add_right_comm]
      refine (block_shrinks_of_forall ihy).bind ?_
      rw [Nat.add_right_comm 1, Nat.add_right_comm]
      refine (block_shrinks_of_forall ihn).bind ?_
      split
      · simp only [Shrinks, Counted.value_simplified, Counted.total_simplified]
        omega
      · split
        · simp only [Shrinks, Counted.value_simplified, Counted.total_simplified]
          omega
        · refine .pure (Nat.le_of_eq ?_)
          rw [blockSize_ifThen]
          omega
  | whileDo cond body span ih =>
      rw [stmt, blockSize_whileDo]
      refine (expr_shrinks cond).bind ?_
      split
      · exact Nat.le_add_right_of_le (Nat.le_add_right 1 _)
      · rw [Nat.add_right_comm]
        refine (block_shrinks_of_forall ih).bind (.pure (Nat.le_of_eq ?_))
        rw [blockSize_whileDo, Nat.add_right_comm]

theorem block_shrinks (body : List Stmt) :
    (block options body).Shrinks blockSize (blockSize body) :=
  block_shrinks_of_forall fun s _ => stmt_shrinks s

/-! ### Contracts -/

def functionsSize (fs : List Function) : Nat :=
  (fs.flatMap Function.nodes).length

theorem functionsSize_cons (f : Function) (rest : List Function) :
    functionsSize (f :: rest) = functionsSize rest + blockSize f.body := by
  rw [functionsSize, List.flatMap_cons, List.length_append, Nat.add_comm]
  rfl

theorem functions_shrink (fs : List Function) :
    (functions options fs).Shrinks functionsSize (functionsSize fs) := by
  induction fs with
  | nil => exact Nat.le_refl 0
  | cons f rest ih =>
      rw [functions, functionsSize_cons]
      refine (block_shrinks f.body).bind ?_
      rw [Nat.add_comm]
      refine ih.bind (.pure (Nat.le_of_eq ?_))
      rw [functionsSize_cons, Nat.add_comm]

end Optimization

/-- A pass takes at least one node out of a contract for every change that it counts. -/
theorem Contract.optimize_shrinks (options : Optimization.Options) (c : Contract) :
    (c.optimize options).Shrinks (fun c => c.nodes.length) c.nodes.length := by
  rw [optimize, ← Nat.zero_add c.nodes.length]
  exact (Optimization.functions_shrink c.functions).bind
    (.pure (Nat.le_of_eq (Nat.zero_add _).symm))

end Workbench.Lowered
