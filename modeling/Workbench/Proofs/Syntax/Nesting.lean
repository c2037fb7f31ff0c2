import Workbench.Proofs.Syntax.Yields

/-!
# How deep a syntax tree can be

A descent leads from a block or an expression down into its parts. The reader spends one unit of
room on each block and each expression of a descent, with one exception: when an operator is folded
onto a finished left operand, the room that the operand took has been given back, so the steps from
an operator to its left operand are free. What a room of `r` bounds is therefore the length of a
descent less its steps to the left; the full length stays below `reach r`, which grows with the
square of `r`, since with a room of `r` less than `r` operators can be folded.
-/

namespace Workbench.Syntax

open Source (Span Diagnostic)
open Syntax.Parser

/-! ### Descents -/

/-- Some way down from the expression passes `n` expressions, its ends included, and goes from an
operator to its left operand `l` times. -/
inductive Expr.Descent : Expr → Nat → Nat → Prop
  | stop (e : Expr) : Descent e 1 0
  | argument {callee : Name} {args : List Expr} {span : Span} {a : Expr} {n l : Nat} :
      a ∈ args → Descent a n l → Descent (.call callee args span) (n + 1) l
  | operand {op : Lang.UnaryOp} {e : Expr} {span : Span} {n l : Nat} :
      Descent e n l → Descent (.unary op e span) (n + 1) l
  | left {op : Lang.BinaryOp} {lhs rhs : Expr} {span : Span} {n l : Nat} :
      Descent lhs n l → Descent (.binary op lhs rhs span) (n + 1) (l + 1)
  | right {op : Lang.BinaryOp} {lhs rhs : Expr} {span : Span} {n l : Nat} :
      Descent rhs n l → Descent (.binary op lhs rhs span) (n + 1) l

/-- The expressions that stand directly in a statement. -/
def Stmt.exprs : Stmt → List Expr
  | letIn _ _ value _ | assign _ value _ | eval value _ => [value]
  | ifThen cond _ _ _ | whileDo cond _ _ | require cond _ => [cond]
  | returns value _ => value.toList

/-- The blocks that stand directly in a statement. -/
def Stmt.blocks : Stmt → List Block
  | ifThen _ yes no _ => yes :: no.toList
  | whileDo _ body _ => [body]
  | _ => []

/-- The same for a block; `n` counts blocks and expressions. -/
inductive Block.Descent : Block → Nat → Nat → Prop
  | stop (b : Block) : Descent b 1 0
  | expr {b : Block} {s : Stmt} {e : Expr} {n l : Nat} :
      s ∈ b.stmts → e ∈ s.exprs → e.Descent n l → Descent b (n + 1) l
  | block {b inner : Block} {s : Stmt} {n l : Nat} :
      s ∈ b.stmts → inner ∈ s.blocks → Descent inner n l → Descent b (n + 1) l

/-! ### Bounds on descents -/

/-- A descent has at most `limit` nodes, and at most `room` besides its steps to the left. -/
def Expr.Within (room limit : Nat) (e : Expr) : Prop :=
  ∀ n l, e.Descent n l → n ≤ room + l ∧ n ≤ limit

def Block.Within (room limit : Nat) (b : Block) : Prop :=
  ∀ n l, b.Descent n l → n ≤ room + l ∧ n ≤ limit

def Stmt.Within (room limit : Nat) (s : Stmt) : Prop :=
  (∀ e ∈ s.exprs, e.Within room limit) ∧ ∀ b ∈ s.blocks, b.Within room limit

namespace Expr

variable {room limit room' limit' : Nat} {e : Expr}

theorem Within.mono (h : e.Within room limit) (hr : room ≤ room') (hl : limit ≤ limit') :
    e.Within room' limit' := by
  intro n l d
  have := h n l d
  omega

theorem Within.pos (h : e.Within room limit) : 0 < room ∧ 0 < limit := by
  have := h 1 0 (.stop e)
  omega

theorem descent_withSpan {s : Span} {n l : Nat} (d : (e.withSpan s).Descent n l) :
    e.Descent n l := by
  cases e <;> cases d
  case call.argument mem d => exact .argument mem d
  case unary.operand d => exact .operand d
  case binary.left d => exact .left d
  case binary.right d => exact .right d
  all_goals exact .stop _

theorem Within.withSpan (h : e.Within room limit) (s : Span) :
    (e.withSpan s).Within room limit :=
  fun n l d => h n l (descent_withSpan d)

theorem within_int (value : Nat) (span : Span) : (Expr.int value span).Within 1 1 := by
  intro n l d
  cases d
  omega

theorem within_bool (value : Bool) (span : Span) : (Expr.bool value span).Within 1 1 := by
  intro n l d
  cases d
  omega

theorem within_name (text : String) (span : Span) : (Expr.name text span).Within 1 1 := by
  intro n l d
  cases d
  omega

theorem within_call {callee : Name} {args : List Expr} {span : Span}
    (h : ∀ a ∈ args, a.Within room limit) :
    (Expr.call callee args span).Within (room + 1) (limit + 1) := by
  intro n l d
  cases d with
  | stop => omega
  | argument mem d =>
      have := h _ mem _ _ d
      omega

theorem within_unary {op : Lang.UnaryOp} {span : Span} (h : e.Within room limit) :
    (Expr.unary op e span).Within (room + 1) (limit + 1) := by
  intro n l d
  cases d with
  | stop => omega
  | operand d =>
      have := h _ _ d
      omega

/-- The operator is not charged to its left operand. -/
theorem within_binary {op : Lang.BinaryOp} {lhs rhs : Expr} {span : Span}
    (left : lhs.Within (room + 1) limit) (right : rhs.Within room limit) :
    (Expr.binary op lhs rhs span).Within (room + 1) (limit + 1) := by
  intro n l d
  cases d with
  | stop => omega
  | left d =>
      have := left _ _ d
      omega
  | right d =>
      have := right _ _ d
      omega

end Expr

theorem Block.Within.mono {room limit room' limit' : Nat} {b : Block} (h : b.Within room limit)
    (hr : room ≤ room') (hl : limit ≤ limit') : b.Within room' limit' := by
  intro n l d
  have := h n l d
  omega

theorem Block.within_of_stmts {room limit : Nat} {b : Block}
    (h : ∀ s ∈ b.stmts, s.Within room limit) : b.Within (room + 1) (limit + 1) := by
  intro n l d
  cases d with
  | stop => omega
  | expr mem memExpr d =>
      have := (h _ mem).1 _ memExpr _ _ d
      omega
  | block mem memBlock d =>
      have := (h _ mem).2 _ memBlock _ _ d
      omega

/-- The length of the longest descent in an expression that can be read with some room. -/
def reach : Nat → Nat
  | 0 => 0
  | 1 => 1
  | room + 2 => reach (room + 1) + (room + 1)

theorem reach_add_le (room : Nat) : reach room + room ≤ reach (room + 1) := by
  cases room with
  | zero => decide
  | succ room => exact Nat.le_refl _

theorem reach_lt (room : Nat) : reach room < reach (room + 1) := by
  cases room with
  | zero => decide
  | succ room =>
      have := reach_add_le (room + 1)
      omega


/-! ### Expressions -/

/-- What the readers of expressions are held to with some room. -/
structure ReadsWithin (room : Nat) : Prop where
  expr : ∀ least, Yields (parseExpr room least) (Expr.Within room (reach room))
  unary : Yields (parseUnary room) (Expr.Within (room + 1) (reach (room + 1) - (room - 1)))
  folds : ∀ least lhs limit charge, reach room ≤ limit → room < charge →
    lhs.Within charge (limit - (room - 1)) →
    Yields (parseFolds room least lhs) (Expr.Within charge limit)

theorem parsePrimary_within {room : Nat}
    (inner : ∀ least, Yields (parseExpr room least) (Expr.Within room (reach room))) :
    Yields (parsePrimary room) (Expr.Within (room + 1) (reach (room + 1) - (room - 1))) := by
  have step := reach_add_le room
  have lt := reach_lt room
  have leaf {e : Expr} (h : e.Within 1 1) :
      e.Within (room + 1) (reach (room + 1) - (room - 1)) := by
    apply h.mono <;> omega
  rw [parsePrimary]
  refine yields_bind fun token => ?_
  split
  · exact yields_bind fun _ => yields_ite (fun _ => yields_pure (leaf (Expr.within_int _ _)))
      fun _ => yields_throw _
  · exact yields_bind fun _ => yields_pure (leaf (Expr.within_bool _ _))
  · refine yields_bind fun callee => yields_bind fun isCall => yields_ite (fun _ => ?_) fun _ => ?_
    · refine (arguments_yields (inner 1)).bind fun args within => yields_bind fun close => ?_
      apply yields_pure
      cases args with
      | nil =>
          have none : ∀ a ∈ ([] : List Expr), a.Within 0 0 := by simp
          exact leaf (Expr.within_call none)
      | cons a rest =>
          have pos := (within a (List.mem_cons_self ..)).pos
          apply (Expr.within_call within).mono <;> omega
    · exact yields_pure (leaf (Expr.within_name _ _))
  · refine yields_bind fun _ => (inner 1).bind fun e within => yields_bind fun close => ?_
    apply yields_pure
    have pos := within.pos
    apply (within.withSpan _).mono <;> omega
  · exact yields_unexpected _

theorem parseUnary_within {room : Nat} (before : ReadsWithin room)
    (inner : ∀ least, Yields (parseExpr (room + 1) least)
      (Expr.Within (room + 1) (reach (room + 1)))) :
    Yields (parseUnary (room + 1))
      (Expr.Within (room + 2) (reach (room + 2) - room)) := by
  rw [parseUnary]
  refine yields_bind fun token => ?_
  split
  · exact parsePrimary_within inner
  · refine yields_bind fun start => before.unary.bind fun operand within => yields_pure ?_
    have step : reach (room + 1) + (room + 1) ≤ reach (room + 2) := reach_add_le (room + 1)
    apply (Expr.within_unary within).mono <;> omega

theorem parseFolds_within {room : Nat} (before : ReadsWithin room) (least : Nat) {lhs : Expr}
    {limit charge : Nat} (le : reach (room + 1) ≤ limit) (lt : room + 1 < charge)
    (within : lhs.Within charge (limit - room)) :
    Yields (parseFolds (room + 1) least lhs) (Expr.Within charge limit) := by
  rw [parseFolds]
  refine yields_bind fun token => ?_
  split
  · apply yields_pure
    apply within.mono <;> omega
  · refine yields_ite (fun _ => yields_pure (within.mono ?_ ?_)) fun _ => yields_bind fun _ => ?_
    · omega
    · omega
    refine (before.expr _).bind fun rhs right => ?_
    have step := reach_add_le room
    have pos := right.pos
    obtain ⟨charge, rfl⟩ : ∃ c, charge = c + 1 := ⟨charge - 1, by omega⟩
    have right' : rhs.Within charge (limit - room) := by
      apply right.mono <;> omega
    apply before.folds
    · have := reach_lt room
      omega
    · omega
    · apply (Expr.within_binary within right').mono <;> omega

theorem readsWithin (room : Nat) : ReadsWithin room := by
  induction room with
  | zero =>
      have inner (least : Nat) : Yields (parseExpr 0 least) (Expr.Within 0 (reach 0)) := by
        rw [parseExpr]
        exact yields_refuse _
      refine ⟨inner, ?_, ?_⟩
      · rw [parseUnary]
        refine yields_bind fun token => ?_
        split
        · exact parsePrimary_within inner
        · exact yields_refuse _
      · intro least lhs limit charge le lt within
        rw [parseFolds]
        refine yields_bind fun token => ?_
        split
        · exact yields_pure within
        · refine yields_ite (fun _ => yields_pure within) fun _ => yields_bind fun _ => ?_
          exact yields_refuse _
  | succ room ih =>
      have inner (least : Nat) : Yields (parseExpr (room + 1) least)
          (Expr.Within (room + 1) (reach (room + 1))) := by
        rw [parseExpr]
        refine ih.unary.bind fun first within => ?_
        apply ih.folds
        · have := reach_lt room
          omega
        · omega
        · exact within
      refine ⟨inner, parseUnary_within ih inner, ?_⟩
      intro least lhs limit charge le lt within
      exact parseFolds_within ih least le lt within


/-! ### Statements -/

theorem parseExpr_within (room least : Nat) :
    Yields (parseExpr room least) (Expr.Within room (reach room)) :=
  (readsWithin room).expr least

theorem parseCondition_within (room : Nat) :
    Yields (parseCondition room) (Expr.Within room (reach room)) := by
  refine yields_bind fun _ => (parseExpr_within room 1).bind fun e within => ?_
  exact yields_bind fun _ => yields_pure within

theorem Stmt.within_of_exprs {room limit : Nat} {s : Stmt} (none : s.blocks = [])
    (h : ∀ e ∈ s.exprs, e.Within room limit) : s.Within room limit := by
  refine ⟨h, ?_⟩
  rw [none]
  simp

theorem finishStmt_within {room limit : Nat} {start : Span} {build : Span → Stmt}
    (h : ∀ span, (build span).Within room limit) :
    Yields (finishStmt start build) (Stmt.Within room limit) :=
  yields_bind fun _ => yields_pure (h _)

theorem finishExpr_within (room : Nat) (start : Span) {build : Expr → Span → Stmt}
    (none : ∀ e s, (build e s).blocks = []) (only : ∀ e s, (build e s).exprs = [e]) :
    Yields (parseExpr room 1 >>= fun e => finishStmt start (build e))
      (Stmt.Within room (reach room)) := by
  refine (parseExpr_within room 1).bind fun e within => finishStmt_within fun s => ?_
  apply Stmt.within_of_exprs (none e s)
  simp [only e s, within]

theorem parseSimple_within (room : Nat) :
    Yields (parseSimple room) (Stmt.Within room (reach room)) := by
  have result {start : Span} {e : Option Expr} (h : ∀ a ∈ e.toList, a.Within room (reach room)) :
      Yields (finishStmt start (.returns e)) (Stmt.Within room (reach room)) :=
    finishStmt_within fun s => Stmt.within_of_exprs rfl h
  refine yields_bind fun start => ?_
  split
  · refine yields_bind fun _ => yields_bind fun name => yields_bind fun typed => ?_
    -- With or without a type, what follows is the same.
    refine yields_ite (fun _ => yields_bind fun type => ?_) fun _ => yields_bind fun type => ?_
    all_goals
      exact yields_bind fun _ => finishExpr_within room _ (fun _ _ => rfl) fun _ _ => rfl
  · refine yields_bind fun _ => yields_bind fun bare => yields_ite (fun _ => ?_) fun _ => ?_
    · have none : Yields (pure Option.none : Parser (Option Expr)) (· = Option.none) :=
        yields_pure rfl
      exact none.bind fun e none => result (by simp [none])
    · have some : Yields (some <$> parseExpr room 1)
          (fun e => ∀ a ∈ e.toList, a.Within room (reach room)) :=
        (parseExpr_within room 1).map fun e within => by simpa using within
      exact some.bind fun e within => result within
  · refine yields_bind fun _ => (parseCondition_within room).bind fun cond within => ?_
    refine finishStmt_within fun s => Stmt.within_of_exprs rfl ?_
    simp [Stmt.exprs, within]
  · refine yields_bind fun s => yields_ite (fun _ => ?_) fun _ => ?_
    · exact yields_bind fun target => yields_bind fun _ =>
        finishExpr_within room _ (fun _ _ => rfl) fun _ _ => rfl
    · exact finishExpr_within room _ (fun _ _ => rfl) fun _ _ => rfl

/-- What the readers of blocks and conditionals are held to with some room. -/
structure NestsWithin (room : Nat) : Prop where
  block : Yields (parseBlock room) (Block.Within room (reach (room - 1) + 1))
  chained : Yields (parseIf room) (Stmt.Within room (reach room))

theorem NestsWithin.block_reach {room : Nat} (h : NestsWithin room) :
    Yields (parseBlock room) (Block.Within room (reach room)) := by
  cases room with
  | zero =>
      rw [parseBlock]
      exact yields_refuse _
  | succ room =>
      exact h.block.mono fun b within => within.mono (Nat.le_refl _) (reach_lt room)

theorem parseStmt_within {room : Nat} (inner : NestsWithin room) :
    Yields (parseStmt room) (Stmt.Within room (reach room)) := by
  rw [parseStmt]
  refine yields_bind fun start => ?_
  split
  · exact inner.chained
  · refine yields_bind fun _ => (parseCondition_within room).bind fun cond condWithin => ?_
    refine inner.block_reach.bind fun body bodyWithin => yields_pure ⟨?_, ?_⟩
    · simp [Stmt.exprs, condWithin]
    · simp [Stmt.blocks, bodyWithin]
  · exact parseSimple_within room

theorem parseBlock_within {room : Nat} (inner : NestsWithin room) :
    Yields (parseBlock (room + 1)) (Block.Within (room + 1) (reach room + 1)) := by
  rw [parseBlock]
  refine yields_bind fun start => ?_
  refine (untilBrace_yields (parseStmt_within inner)).bind fun stmts within => ?_
  exact yields_bind fun close => yields_pure (Block.within_of_stmts within)

theorem parseIf_within {room : Nat} (inner : NestsWithin room) :
    Yields (parseIf (room + 1)) (Stmt.Within (room + 1) (reach (room + 1))) := by
  have lt := reach_lt room
  rw [parseIf]
  refine yields_bind fun start => (parseCondition_within room).bind fun cond condWithin => ?_
  refine inner.block_reach.bind fun yes yesWithin => yields_bind fun more => ?_
  have finish {no : Option Block} {span : Span}
      (noWithin : ∀ b ∈ no.toList, b.Within (room + 1) (reach (room + 1))) :
      (Stmt.ifThen cond yes no span).Within (room + 1) (reach (room + 1)) := by
    constructor
    · have := condWithin.mono (Nat.le_succ room) (Nat.le_of_lt lt)
      simpa [Stmt.exprs] using this
    · have := yesWithin.mono (Nat.le_succ room) (Nat.le_of_lt lt)
      simpa [Stmt.blocks, this] using noWithin
  refine yields_ite (fun _ => yields_bind fun token => yields_ite (fun _ => ?_) fun _ => ?_)
    fun _ => yields_pure (finish (by simp))
  · refine inner.chained.bind fun nested nestedWithin => ?_
    have ladder : Yields (pure (Block.mk [nested] nested.span) : Parser Block)
        (Block.Within (room + 1) (reach room + 1)) := by
      apply yields_pure
      apply Block.within_of_stmts
      simpa [Block.stmts] using nestedWithin
    refine ladder.bind fun no within => yields_pure (finish ?_)
    have := within.mono (Nat.le_refl _) lt
    simpa using this
  · refine inner.block_reach.bind fun no within => yields_pure (finish ?_)
    have := within.mono (Nat.le_succ room) (Nat.le_of_lt lt)
    simpa using this

theorem nestsWithin (room : Nat) : NestsWithin room := by
  induction room with
  | zero =>
      constructor
      · rw [parseBlock]
        exact yields_refuse _
      · rw [parseIf]
        exact yields_refuse _
  | succ room ih => exact ⟨parseBlock_within ih, parseIf_within ih⟩


/-! ### Declarations -/

/-- The length of the longest descent in the body of a function. -/
def maxDescent : Nat := reach (maxDepth - 1) + 1

theorem parseFunction_within :
    Yields parseFunction (fun f => f.body.Within maxDepth maxDescent) := by
  have body := (nestsWithin maxDepth).block
  refine yields_bind fun start => yields_bind fun name => yields_bind fun _ => ?_
  refine yields_bind fun params => yields_bind fun _ => yields_bind fun modifiers => ?_
  refine yields_bind fun arrow => ?_
  refine yields_ite (fun _ => yields_bind fun type => ?_) fun _ => yields_bind fun type => ?_
  all_goals exact body.bind fun body within => yields_pure within

theorem parseDeclsAux_within (rounds : Nat) {storage : List StorageDecl}
    {functions : List FunctionDecl} (h : ∀ f ∈ functions, f.body.Within maxDepth maxDescent) :
    Yields (parseDeclsAux rounds storage functions)
      (fun decls => ∀ f ∈ decls.2, f.body.Within maxDepth maxDescent) := by
  have finished : ∀ f ∈ functions.reverse, f.body.Within maxDepth maxDescent :=
    fun f mem => h f (List.mem_reverse.mp mem)
  induction rounds generalizing storage functions with
  | zero => exact yields_pure finished
  | succ rounds ih =>
      refine yields_bind fun token => ?_
      split
      · exact yields_bind fun decl => ih h finished
      · refine parseFunction_within.bind fun decl within => ?_
        have more : ∀ f ∈ decl :: functions, f.body.Within maxDepth maxDescent :=
          List.forall_mem_cons.2 ⟨within, h⟩
        exact ih more fun f mem => more f (List.mem_reverse.mp mem)
      · exact yields_pure finished
      · exact yields_unexpected _

theorem parseContract_within :
    Yields parseContract (fun c => ∀ f ∈ c.functions, f.body.Within maxDepth maxDescent) := by
  refine yields_bind fun start => yields_bind fun name => yields_bind fun _ => ?_
  refine yields_bind fun s => (parseDeclsAux_within _ (by simp)).bind fun decls within => ?_
  refine yields_bind fun close => yields_bind fun token => yields_ite (fun _ => ?_) fun _ => ?_
  · exact yields_pure within
  · exact yields_refuse _

theorem within_of_parse {source : String} {c : Contract} (h : parse source = .ok c) :
    ∀ f ∈ c.functions, f.body.Within maxDepth maxDescent := by
  unfold parse at h
  simp only at h
  split at h
  · split at h
    · next contract read =>
        cases h
        rw [Contract.ofStream, StateT.run'_eq] at read
        cases run : parseContract.run ⟨(lex source).tokens, (lex source).size⟩ with
        | error e =>
            rw [run] at read
            cases read
        | ok r =>
            rw [run] at read
            cases read
            exact parseContract_within _ _ _ run
    · cases h
  · cases h

end Workbench.Syntax
