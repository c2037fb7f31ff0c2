import Workbench.Proofs.Lowered.Fuel
import Workbench.Proofs.Lowered.OptimizationTyping

/-!
# Optimization keeps the meaning

Wherever truth values are zero and one, an optimized expression comes to the same as the original
one, requests to the host included, and so do optimized statements. A loop that is dropped because
its condition fails took one round, so statements are compared with at least one round for loops.
Calls are the same on both sides until the end, where an induction on fuel ties the knot: what one
form reaches with some fuel the other reaches with one unit more.
-/

namespace Workbench.Lowered

open Source (Span)
open Lang (Ty UnaryOp BinaryOp Builtin Word Host Eval Flow)
open Lang.Eval (Keeps SameUnder Approximates)

variable {State : Type} {Inv : State → Prop} {host : Host State} {calls : Calls State}
  {Γ : Context} {live : List Nat} {locals : Locals}

/-! ### Operators on known operands -/

section

variable {op : BinaryOp} {a b w : Word}

theorem evaluate_of_settled (h : op.settled? a = some w) (rhs : Eval State Word) :
    op.evaluate (pure a) rhs = pure w := by
  rw [Lang.BinaryOp.evaluate, pure_bind, h]

theorem evaluate_of_not_settled (h : op.settled? a = none) (rhs : Eval State Word) :
    op.evaluate (pure a) rhs = rhs >>= fun b => Eval.orTrap (op.combine? a b) := by
  rw [Lang.BinaryOp.evaluate, pure_bind, h]

/-- A second operand that is known can be evaluated in any case. -/
theorem evaluate_pure_right (lhs : Eval State Word) (b : Word) :
    op.evaluate lhs (pure b) = lhs >>= fun a => Eval.orTrap (resultOn? op a b) := by
  unfold Lang.BinaryOp.evaluate
  congr 1
  funext a
  rw [resultOn?]
  cases op.settled? a with
  | some w => rfl
  | none => exact pure_bind _ _

end

/-! ### Words -/

theorem evalExpr_of_literal {e : Expr} {w : Word} (h : e.literal? = some w) :
    evalExpr host calls locals e = pure (some w) := by
  cases e with
  | int value span =>
      cases h
      rfl
  | bool value span =>
      cases h
      rfl
  | _ => contradiction

theorem evalWord_of_literal {e : Expr} {w : Word} (h : e.literal? = some w) :
    evalWord host calls locals e = pure w := by
  rw [evalWord, evalExpr_of_literal h, pure_bind]
  rfl

/-- An expression with a value is evaluated to that value. -/
theorem evalExpr_eq_some {V : Ty → Word → Prop} {e : Expr} (has : e.type.hasValue)
    (keeps : Keeps Inv (Fits V e.type) (evalExpr host calls locals e)) :
    SameUnder Inv (evalExpr host calls locals e)
      (evalWord host calls locals e >>= fun w => pure (some w)) := by
  rw [evalWord, bind_assoc]
  have same : SameUnder Inv (evalExpr host calls locals e) (evalExpr host calls locals e) :=
    SameUnder.refl _
  have h := same.bind keeps (f := pure)
    (g := fun v => Eval.needed v >>= fun w => pure (some w)) (fun v fits => by
      obtain ⟨w, rfl, -⟩ := fits.exists_of_hasValue has
      exact SameUnder.refl _)
  rwa [bind_pure] at h

/-- A pure expression has a value, whatever the host and the calls do. -/
theorem evalExpr_of_isPure (host : Host State) (calls : Calls State) {V : Ty → Word → Prop}
    (holds : Holds V Γ live locals) {e : Expr} (typed : e.Typed Γ live) (isPure : e.isPure) :
    ∃ w, evalExpr host calls locals e = pure (some w) := by
  induction e with
  | int value span => exact ⟨value, rfl⟩
  | bool value span => exact ⟨Word.ofBool value, rfl⟩
  | var index type span =>
      obtain ⟨w, stored, -⟩ := holds.value index typed.1 type typed.2.1
      refine ⟨w, ?_⟩
      rw [evalExpr, stored]
      exact pure_bind _ _
  | slot index type span => contradiction
  | unary op operand span ih =>
      obtain ⟨w, hw⟩ := ih typed.1 isPure
      refine ⟨op.apply w, ?_⟩
      rw [evalExpr, hw, pure_bind]
      exact pure_bind _ _
  | binary op lhs rhs span ihl ihr =>
      obtain ⟨hl, hr, -⟩ := typed
      simp only [Expr.isPure, Bool.and_eq_true, bne_iff_ne, ne_eq] at isPure
      obtain ⟨⟨⟨notDiv, notRem⟩, purel⟩, purer⟩ := isPure
      obtain ⟨a, ha⟩ := ihl hl purel
      obtain ⟨b, hb⟩ := ihr hr purer
      have total : (resultOn? op a b).isSome := by
        cases op <;> simp [resultOn?, BinaryOp.settled?, BinaryOp.combine?] at notDiv notRem ⊢
      obtain ⟨w, hw⟩ := Option.isSome_iff_exists.1 total
      refine ⟨w, ?_⟩
      rw [evalExpr_binary, evalWord, ha, pure_bind, evalWord, hb, pure_bind]
      have known : op.evaluate (Eval.needed (some a)) (Eval.needed (some b)) =
          (Eval.orTrap (resultOn? op a b) : Eval State Word) :=
        (evaluate_pure_right _ b).trans (pure_bind _ _)
      rw [known, hw]
      exact pure_bind _ _
  | shl value amount span ih =>
      obtain ⟨w, hw⟩ := ih typed.1 isPure
      refine ⟨w <<< amount, ?_⟩
      rw [evalExpr, hw, pure_bind]
      exact pure_bind _ _
  | call function args result span ih => contradiction
  | builtin kind args span ih => contradiction

theorem evalWord_of_isPure (host : Host State) (calls : Calls State) {V : Ty → Word → Prop}
    (holds : Holds V Γ live locals) {e : Expr} (typed : e.Typed Γ live) (isPure : e.isPure) :
    ∃ w, evalWord host calls locals e = pure w := by
  obtain ⟨w, hw⟩ := evalExpr_of_isPure host calls holds typed isPure
  refine ⟨w, ?_⟩
  rw [evalWord, hw, pure_bind]
  rfl

/-! ### Expressions -/

namespace Optimization

/-- What an identity gives is the value of the operator. -/
theorem Identity.sound (holds : Holds Proper Γ live locals) {op : BinaryOp} {lhs rhs e : Expr}
    (h : Identity op lhs rhs e) (hl : lhs.Typed Γ live) (hr : rhs.Typed Γ live)
    (operands : Operands op lhs.type rhs.type)
    (keeps : Keeps Inv (Proper lhs.type) (evalWord host calls locals lhs)) :
    SameUnder Inv (evalWord host calls locals e)
      (op.evaluate (evalWord host calls locals lhs) (evalWord host calls locals rhs)) := by
  cases h with
  | left literal type neutral =>
      rw [evalWord_of_literal literal, evaluate_pure_right]
      have h := (SameUnder.refl (evalWord host calls locals lhs)).bind keeps
        (f := pure) (g := fun a => Eval.orTrap (resultOn? op a _)) (fun a proper => by
          rw [neutral a (type _ _ operands ▸ proper)]
          exact SameUnder.refl _)
      rwa [bind_pure] at h
  | right literal type unsettled neutral =>
      rw [evalWord_of_literal literal, evaluate_of_not_settled unsettled]
      refine SameUnder.of_eq ?_
      conv => lhs; rw [← bind_pure (evalWord host calls locals rhs)]
      congr 1
      funext b
      rw [neutral b]
      rfl
  | settled literal value type settles =>
      rw [evalWord_of_literal literal, evaluate_of_settled settles, evalWord_of_literal value]
      exact SameUnder.refl _
  | absorbLeft literal isPure value type absorbs =>
      obtain ⟨a, ha⟩ := evalWord_of_isPure host calls holds hl isPure
      rw [evalWord_of_literal literal, evalWord_of_literal value, ha, evaluate_pure_right,
        pure_bind, absorbs a]
      exact SameUnder.refl _
  | absorbRight literal isPure value type unsettled absorbs =>
      obtain ⟨b, hb⟩ := evalWord_of_isPure host calls holds hr isPure
      rw [evalWord_of_literal literal, evalWord_of_literal value, hb,
        evaluate_of_not_settled unsettled, pure_bind, absorbs b]
      exact SameUnder.refl _

theorem fold?_sound {op : BinaryOp} {lhs rhs e : Expr} {span : Span}
    (h : fold? op lhs rhs span = some e) :
    evalWord host calls locals e =
      op.evaluate (evalWord host calls locals lhs) (evalWord host calls locals rhs) := by
  obtain ⟨a, b, w, hl, hr, he, value, -⟩ := fold?_spec h
  rw [evalWord_of_literal hl, evalWord_of_literal hr, evalWord_of_literal he, evaluate_pure_right,
    pure_bind, value]
  rfl

/-- A shift is a multiplication by a literal, on whichever side it stands. -/
theorem reduceStrength_sound (options : Options) (op : BinaryOp) (lhs rhs : Expr) (span : Span) :
    evalExpr host calls locals (reduceStrength options op lhs rhs span).value =
      evalExpr host calls locals (.binary op lhs rhs span) := by
  rcases reduceStrength_cases options op lhs rhs span with
    ⟨amount, _, rfl, right, value⟩ | ⟨amount, _, rfl, _, left, value⟩ | ⟨_, value⟩
  · obtain ⟨-, w, literal, shifts⟩ := shiftAmount?_spec right
    rw [value, evalExpr_binary, evalWord_of_literal literal, evaluate_pure_right, bind_assoc]
    refine (evalExpr_shl _ _ _).trans ?_
    congr 1
    funext a
    rw [← shifts a]
    rfl
  · obtain ⟨-, w, literal, shifts⟩ := shiftAmount?_spec left
    rw [value, evalExpr_binary, evalWord_of_literal literal, evaluate_of_not_settled rfl,
      bind_assoc]
    refine (evalExpr_shl _ _ _).trans ?_
    congr 1
    funext b
    rw [← shifts b, BitVec.mul_comm]
    rfl
  · rw [value]

/-- Two words for the same operator give the same value. -/
theorem binary_of_words {V : Ty → Word → Prop} {op : BinaryOp} {lhs rhs e : Expr} (span : Span)
    (has : e.type.hasValue) (keeps : Keeps Inv (Fits V e.type) (evalExpr host calls locals e))
    (h : SameUnder Inv (evalWord host calls locals e)
      (op.evaluate (evalWord host calls locals lhs) (evalWord host calls locals rhs))) :
    SameUnder Inv (evalExpr host calls locals e)
      (evalExpr host calls locals (.binary op lhs rhs span)) := by
  refine (evalExpr_eq_some has keeps).trans ?_
  rw [evalExpr_binary]
  exact h.bind (h.symm.keeps (needed_keeps has keeps)) fun _ _ => SameUnder.refl _

/-- An optimized operator comes to the same as the operator. -/
theorem binary_sound (hostKeeps : HostKeeps Proper Inv Γ.storage host)
    (callsKeep : CallsKeep Proper Inv Γ.signatures calls) (holds : Holds Proper Γ live locals)
    (options : Options) {op : BinaryOp} {lhs rhs : Expr} (span : Span) (hl : lhs.Typed Γ live)
    (hr : rhs.Typed Γ live) (operands : Operands op lhs.type rhs.type) :
    SameUnder Inv (evalExpr host calls locals (binary options op lhs rhs span).value)
      (evalExpr host calls locals (.binary op lhs rhs span)) := by
  have keeps {e : Expr} (typed : e.Typed Γ live) :
      Keeps Inv (Fits Proper e.type) (evalExpr host calls locals e) :=
    evalExpr_keeps proper_admits hostKeeps callsKeep holds typed
  have has {e : Expr} (h : e.Has Γ live (binaryType op)) : e.type.hasValue := by
    rw [h.2]
    exact hasValue_binaryType op
  rcases binary_cases options op lhs rhs span with ⟨e, found, eq⟩ | ⟨e, identity, eq⟩ | eq <;>
    rw [eq]
  · have typed : e.Has Γ live (binaryType op) := fold?_typed found
    exact binary_of_words span (has typed) (keeps typed.1) (SameUnder.of_eq (fold?_sound found))
  · have typed := identity.typed hl hr operands
    exact binary_of_words span (has typed) (keeps typed.1)
      (identity.sound holds hl hr operands (needed_keeps operands.hasValue.1 (keeps hl)))
  · exact SameUnder.of_eq (reduceStrength_sound options op lhs rhs span)

/-- Negating a truth value twice gives it back. -/
theorem not_not_sound {inner : Expr} (span innerSpan : Span) (type : inner.type = .bool)
    (keeps : Keeps Inv (Fits Proper inner.type) (evalExpr host calls locals inner)) :
    SameUnder Inv (evalExpr host calls locals inner)
      (evalExpr host calls locals (.unary .not (.unary .not inner innerSpan) span)) := by
  have has : inner.type.hasValue := by
    rw [type]
    rfl
  refine (evalExpr_eq_some has keeps).trans ?_
  rw [evalExpr_unary, evalWord_unary, bind_assoc]
  refine (SameUnder.refl _).bind (needed_keeps has keeps) fun w proper => ?_
  rw [type] at proper
  rcases proper with rfl | rfl <;> exact SameUnder.refl _

theorem unary_sound (hostKeeps : HostKeeps Proper Inv Γ.storage host)
    (callsKeep : CallsKeep Proper Inv Γ.signatures calls) (holds : Holds Proper Γ live locals)
    (options : Options) {op : UnaryOp} {operand : Expr} (span : Span)
    (typed : operand.Has Γ live (unaryType op)) :
    SameUnder Inv (evalExpr host calls locals (unary options op operand span).value)
      (evalExpr host calls locals (.unary op operand span)) := by
  rcases unary_cases options op operand span with ⟨value, s, rfl, rfl, eq⟩ |
    ⟨value, s, rfl, rfl, eq⟩ | ⟨inner, innerSpan, rfl, rfl, eq⟩ | eq <;> rw [eq]
  · rw [evalExpr_unary, evalWord_of_literal rfl, pure_bind]
    exact SameUnder.refl _
  · rw [evalExpr_unary, evalWord_of_literal rfl, pure_bind]
    cases value <;> exact SameUnder.refl _
  · obtain ⟨inner, type⟩ := typed.1
    exact not_not_sound span innerSpan type
      (evalExpr_keeps proper_admits hostKeeps callsKeep holds inner)
  · exact SameUnder.refl _

theorem exprs_sound (hostKeeps : HostKeeps Proper Inv Γ.storage host)
    (callsKeep : CallsKeep Proper Inv Γ.signatures calls) (holds : Holds Proper Γ live locals)
    {options : Options} {args : List Expr} {params : List Ty}
    (each : ∀ a ∈ args, a.Typed Γ live →
      SameUnder Inv (evalExpr host calls locals (expr options a).value)
        (evalExpr host calls locals a))
    (typed : ArgsTyped Γ live args params) :
    SameUnder Inv (evalArgs host calls locals (exprs options args).value)
      (evalArgs host calls locals args) := by
  have keeps {e : Expr} (typed : e.Typed Γ live) :
      Keeps Inv (Fits Proper e.type) (evalExpr host calls locals e) :=
    evalExpr_keeps proper_admits hostKeeps callsKeep holds typed
  induction typed using ArgsTyped.induction with
  | nil => exact SameUnder.refl _
  | cons he has rest ih =>
      obtain ⟨first, others⟩ := List.forall_mem_cons.1 each
      simp only [exprs, Counted.value_bind, Counted.value_pure, evalArgs]
      refine (first he).bind (keeps he) fun value fits => ?_
      obtain ⟨w, rfl, hw⟩ := fits.exists_of_hasValue has
      refine (SameUnder.refl _).bind (Keeps.needed hw) fun w _ => ?_
      exact (ih others).bind (evalArgs_keeps (fun _ _ => keeps) rest) fun _ _ =>
        SameUnder.refl _

/-- An optimized expression comes to the same as the original one. -/
theorem expr_sound (hostKeeps : HostKeeps Proper Inv Γ.storage host)
    (callsKeep : CallsKeep Proper Inv Γ.signatures calls) (holds : Holds Proper Γ live locals)
    (options : Options) {e : Expr} (typed : e.Typed Γ live) :
    SameUnder Inv (evalExpr host calls locals (expr options e).value)
      (evalExpr host calls locals e) := by
  have keeps {e : Expr} (typed : e.Typed Γ live) :
      Keeps Inv (Fits Proper e.type) (evalExpr host calls locals e) :=
    evalExpr_keeps proper_admits hostKeeps callsKeep holds typed
  induction e with
  | int value span => exact SameUnder.refl _
  | bool value span => exact SameUnder.refl _
  | var index type span => exact SameUnder.refl _
  | slot index type span => exact SameUnder.refl _
  | unary op operand span ih =>
      have operandHas : (expr options operand).value.Has Γ live (unaryType op) := expr_has typed
      refine (unary_sound hostKeeps callsKeep holds options span operandHas).trans ?_
      rw [evalExpr, evalExpr]
      exact (ih typed.1).bind (keeps typed.1) fun _ _ => SameUnder.refl _
  | binary op lhs rhs span ihl ihr =>
      obtain ⟨hl, hr, operands⟩ := typed
      obtain ⟨hasl, hasr⟩ := operands.hasValue
      obtain ⟨typedl, typel⟩ := expr_typed options hl
      obtain ⟨typedr, typer⟩ := expr_typed options hr
      have applies : Operands op (expr options lhs).value.type (expr options rhs).value.type := by
        rw [typel, typer]
        exact operands
      refine (binary_sound hostKeeps callsKeep holds options span typedl typedr applies).trans ?_
      have keepsl := needed_keeps hasl (keeps hl)
      have keepsr := needed_keeps hasr (keeps hr)
      rw [evalExpr_binary, evalExpr_binary]
      have left := needed_congr SameUnder.compares (ihl hl) (keeps hl)
      have right := needed_congr SameUnder.compares (ihr hr) (keeps hr)
      exact (evaluate_congr SameUnder.compares left keepsl right keepsr).bind
        (evaluate_keeps proper_admits operands keepsl keepsr) fun _ _ => SameUnder.refl _
  | shl value amount span ih =>
      simp only [expr, Counted.value_bind, Counted.value_pure, evalExpr]
      exact (ih typed.1).bind (keeps typed.1) fun _ _ => SameUnder.refl _
  | call function args result span ih =>
      obtain ⟨params, -, argsTyped⟩ := typed
      simp only [expr, Counted.value_bind, Counted.value_pure, evalExpr]
      exact (exprs_sound hostKeeps callsKeep holds ih argsTyped).bind
        (evalArgs_keeps (fun _ _ => keeps) argsTyped) fun _ _ => SameUnder.refl _
  | builtin kind args span ih =>
      simp only [expr, Counted.value_bind, Counted.value_pure, evalExpr]
      exact (exprs_sound hostKeeps callsKeep holds ih typed.2).bind
        (evalArgs_keeps (fun _ _ => keeps) typed.2) fun _ _ => SameUnder.refl _

theorem word_sound (hostKeeps : HostKeeps Proper Inv Γ.storage host)
    (callsKeep : CallsKeep Proper Inv Γ.signatures calls) (holds : Holds Proper Γ live locals)
    (options : Options) {e : Expr} (typed : e.Typed Γ live) :
    SameUnder Inv (evalWord host calls locals (expr options e).value)
      (evalWord host calls locals e) :=
  needed_congr SameUnder.compares (expr_sound hostKeeps callsKeep holds options typed)
    (evalExpr_keeps proper_admits hostKeeps callsKeep holds typed)

/-! ### Statements -/

theorem andThen_next (flow : Flow Locals) :
    flow.andThen (fun locals => (pure (.next locals) : Eval State _)) = pure flow := by
  cases flow <;> rfl

theorem evalStmts_singleton (rounds : Nat) (s : Stmt) :
    evalStmts host calls rounds locals [s] = evalStmt host calls rounds locals s := by
  rw [evalStmts]
  conv => rhs; rw [← bind_pure (evalStmt host calls rounds locals s)]
  congr 1
  funext flow
  exact andThen_next flow

theorem evalStmts_append (rounds : Nat) (first rest : List Stmt) (locals : Locals) :
    evalStmts host calls rounds locals (first ++ rest) =
      evalStmts host calls rounds locals first >>= fun flow =>
        flow.andThen fun locals => evalStmts host calls rounds locals rest := by
  induction first generalizing locals with
  | nil =>
      rw [List.nil_append, evalStmts, pure_bind]
      rfl
  | cons s first ih =>
      rw [List.cons_append, evalStmts, evalStmts, bind_assoc]
      congr 1
      funext flow
      cases flow with
      | next locals => exact ih locals
      | returned value => exact (pure_bind _ _).symm

/-- Nothing is lost with the statements behind one that control never passes. -/
theorem cutUnreachable_sound (hostKeeps : HostKeeps Proper Inv Γ.storage host)
    (callsKeep : CallsKeep Proper Inv Γ.signatures calls) {rounds : Nat} {body : List Stmt}
    (holds : Holds Proper Γ live locals) (typed : StmtsTyped Γ live body) :
    SameUnder Inv (evalStmts host calls rounds locals (cutUnreachable body))
      (evalStmts host calls rounds locals body) := by
  induction body generalizing live locals with
  | nil => exact SameUnder.refl _
  | cons s rest ih =>
      have keeps : Keeps Inv (FlowFits Proper Γ (s.declares ++ live) s.diverges)
          (evalStmt host calls rounds locals s) :=
        evalStmt_keeps proper_admits hostKeeps callsKeep live locals holds typed.1
      rw [cutUnreachable]
      split
      case isTrue diverges =>
        rw [evalStmts, evalStmts]
        refine (SameUnder.refl _).bind keeps fun flow fits => ?_
        exact andThen_congr SameUnder.compares fits fun _ passes =>
          absurd diverges (by simp [passes])
      case isFalse =>
        rw [evalStmts, evalStmts]
        refine (SameUnder.refl _).bind keeps fun flow fits => ?_
        exact andThen_congr SameUnder.compares fits fun _ _ holds => ih holds typed.2

theorem finishBlock_sound (hostKeeps : HostKeeps Proper Inv Γ.storage host)
    (callsKeep : CallsKeep Proper Inv Γ.signatures calls) (options : Options) {rounds : Nat}
    {body : List Stmt} (holds : Holds Proper Γ live locals) (typed : StmtsTyped Γ live body) :
    SameUnder Inv (evalStmts host calls rounds locals (finishBlock options body).value)
      (evalStmts host calls rounds locals body) := by
  unfold finishBlock
  split
  · exact cutUnreachable_sound hostKeeps callsKeep holds typed
  · exact SameUnder.refl _

/-- The statements that a statement is replaced by come to the same wherever it is typed. -/
def ReplacesSoundly (Inv : State → Prop) (host : Host State) (calls : Calls State) (rounds : Nat)
    (Γ : Context) (options : Options) (s : Stmt) : Prop :=
  ∀ live locals, Holds Proper Γ live locals → s.Typed Γ live →
    SameUnder Inv (evalStmts host calls rounds locals (stmt options s).value)
      (evalStmt host calls rounds locals s)

theorem stmts_sound_of_forall (hostKeeps : HostKeeps Proper Inv Γ.storage host)
    (callsKeep : CallsKeep Proper Inv Γ.signatures calls) {options : Options} {rounds : Nat}
    {body : List Stmt} (each : ∀ s ∈ body, ReplacesSoundly Inv host calls rounds Γ options s)
    (holds : Holds Proper Γ live locals) (typed : StmtsTyped Γ live body) :
    SameUnder Inv (evalStmts host calls rounds locals (stmts options body).value)
      (evalStmts host calls rounds locals body) := by
  induction body generalizing live locals with
  | nil =>
      rw [value_stmts_nil]
      exact SameUnder.refl _
  | cons s rest ih =>
      obtain ⟨first, others⟩ := List.forall_mem_cons.1 each
      rw [value_stmts_cons, evalStmts_append, evalStmts]
      refine (first live locals holds typed.1).bind
        (evalStmt_keeps proper_admits hostKeeps callsKeep live locals holds typed.1) ?_
      exact fun flow fits => andThen_congr SameUnder.compares fits fun _ _ holds =>
        ih others holds typed.2

theorem block_sound_of_forall (hostKeeps : HostKeeps Proper Inv Γ.storage host)
    (callsKeep : CallsKeep Proper Inv Γ.signatures calls) {options : Options} {rounds : Nat}
    {body : List Stmt} (each : ∀ s ∈ body, ReplacesSoundly Inv host calls rounds Γ options s)
    (holds : Holds Proper Γ live locals) (typed : StmtsTyped Γ live body) :
    SameUnder Inv (evalStmts host calls rounds locals (block options body).value)
      (evalStmts host calls rounds locals body) := by
  rw [value_block]
  exact (finishBlock_sound hostKeeps callsKeep options holds (stmts_typed typed)).trans
    (stmts_sound_of_forall hostKeeps callsKeep each holds typed)

/-- A conditional on a known truth value is one of its branches. -/
theorem evalStmt_ifThen_of_literal {rounds : Nat} {cond : Expr} {b : Bool}
    (known : isBool b cond) (yes no : List Stmt) (span : Span) :
    evalStmt host calls rounds locals (.ifThen cond yes no span) =
      evalStmts host calls rounds locals (if b then yes else no) := by
  rw [evalStmt, evalWord_of_literal (literal?_of_isBool known), pure_bind]
  cases b <;> rfl

theorem loop_sameUnder {test test' : Locals → Eval State Word}
    {body body' : Locals → Eval State (Flow Locals)}
    (ht : ∀ locals, Holds Proper Γ live locals → SameUnder Inv (test locals) (test' locals))
    (keepst : ∀ locals, Holds Proper Γ live locals → Keeps Inv (fun _ => True) (test' locals))
    (hb : ∀ locals, Holds Proper Γ live locals → SameUnder Inv (body locals) (body' locals))
    (keepsb : ∀ locals, Holds Proper Γ live locals →
      Keeps Inv (FlowFits Proper Γ live false) (body' locals))
    (rounds : Nat) (holds : Holds Proper Γ live locals) :
    SameUnder Inv (Flow.loop test body rounds locals) (Flow.loop test' body' rounds locals) := by
  induction rounds generalizing locals with
  | zero => exact SameUnder.refl _
  | succ rounds ih =>
      rw [Flow.loop, Flow.loop]
      refine (ht locals holds).bind (keepst locals holds) fun w _ => ?_
      split
      · exact SameUnder.refl _
      · refine (hb locals holds).bind (keepsb locals holds) fun flow fits => ?_
        exact andThen_congr SameUnder.compares fits fun _ _ holds => ih holds

section

variable {options : Options} {rounds : Nat} {cond : Expr} {span : Span}

theorem ifThen_sound {yes no : List Stmt}
    (test : SameUnder Inv (evalWord host calls locals (expr options cond).value)
      (evalWord host calls locals cond))
    (truth : Keeps Inv (Proper .bool) (evalWord host calls locals cond))
    (hy : SameUnder Inv (evalStmts host calls rounds locals (block options yes).value)
      (evalStmts host calls rounds locals yes))
    (hn : SameUnder Inv (evalStmts host calls rounds locals (block options no).value)
      (evalStmts host calls rounds locals no)) :
    SameUnder Inv
      (evalStmts host calls rounds locals (stmt options (.ifThen cond yes no span)).value)
      (evalStmt host calls rounds locals (.ifThen cond yes no span)) := by
  have branches : SameUnder Inv
      (evalStmt host calls rounds locals (.ifThen (expr options cond).value
        (block options yes).value (block options no).value span))
      (evalStmt host calls rounds locals (.ifThen cond yes no span)) := by
    rw [evalStmt, evalStmt]
    refine test.bind truth fun w _ => ?_
    split
    · exact hn
    · exact hy
  rw [value_ifThen]
  split
  case isTrue known =>
    rwa [evalStmt_ifThen_of_literal (Bool.and_eq_true_iff.1 known).2] at branches
  case isFalse =>
    split
    case isTrue known =>
      rwa [evalStmt_ifThen_of_literal (Bool.and_eq_true_iff.1 known).2] at branches
    case isFalse =>
      rw [evalStmts_singleton]
      exact branches

/-- The round that a dropped loop took has evaluated its condition. -/
theorem whileDo_sound {body : List Stmt} (some_round : rounds ≠ 0)
    (test : SameUnder Inv (evalWord host calls locals (expr options cond).value)
      (evalWord host calls locals cond))
    (truth : Keeps Inv (Proper .bool) (evalWord host calls locals cond))
    (loop : SameUnder Inv
      (Flow.loop (fun locals => evalWord host calls locals (expr options cond).value)
        (fun locals => evalStmts host calls rounds locals (block options body).value) rounds locals)
      (Flow.loop (fun locals => evalWord host calls locals cond)
        (fun locals => evalStmts host calls rounds locals body) rounds locals)) :
    SameUnder Inv
      (evalStmts host calls rounds locals (stmt options (.whileDo cond body span)).value)
      (evalStmt host calls rounds locals (.whileDo cond body span)) := by
  rw [value_whileDo]
  split
  case isTrue known =>
    obtain ⟨round, rfl⟩ := Nat.exists_eq_succ_of_ne_zero some_round
    have falsity := literal?_of_isBool (Bool.and_eq_true_iff.1 known).2
    rw [evalWord_of_literal falsity] at test
    rw [evalStmts, evalStmt, Flow.loop]
    refine SameUnder.trans ?_ (test.bind truth fun _ _ => SameUnder.refl _)
    rw [pure_bind]
    exact SameUnder.refl _
  case isFalse =>
    rw [evalStmts_singleton, evalStmt, evalStmt]
    exact loop

theorem require_sound
    (test : SameUnder Inv (evalWord host calls locals (expr options cond).value)
      (evalWord host calls locals cond))
    (truth : Keeps Inv (Proper .bool) (evalWord host calls locals cond)) :
    SameUnder Inv (evalStmts host calls rounds locals (stmt options (.require cond span)).value)
      (evalStmt host calls rounds locals (.require cond span)) := by
  have passes : SameUnder Inv
      (evalStmt host calls rounds locals (.require (expr options cond).value span))
      (evalStmt host calls rounds locals (.require cond span)) := by
    rw [evalStmt, evalStmt]
    exact test.bind truth fun _ _ => SameUnder.refl _
  rw [value_require]
  split
  case isTrue known =>
    have certain := literal?_of_isBool (Bool.and_eq_true_iff.1 known).2
    rw [evalStmt, evalWord_of_literal certain, pure_bind] at passes
    exact passes
  case isFalse =>
    rw [evalStmts_singleton]
    exact passes

end

/-- What takes the place of a statement comes to the same, given a round for every loop. -/
theorem stmt_sound (hostKeeps : HostKeeps Proper Inv Γ.storage host)
    (callsKeep : CallsKeep Proper Inv Γ.signatures calls) (options : Options) {rounds : Nat}
    (some_round : rounds ≠ 0) (s : Stmt) :
    ReplacesSoundly Inv host calls rounds Γ options s := by
  have word {live : List Nat} {locals : Locals} (holds : Holds Proper Γ live locals) {e : Expr}
      (typed : e.Typed Γ live) :
      SameUnder Inv (evalWord host calls locals (expr options e).value)
        (evalWord host calls locals e) :=
    word_sound hostKeeps callsKeep holds options typed
  have keeps {live : List Nat} {locals : Locals} (holds : Holds Proper Γ live locals) {e : Expr}
      (typed : e.Typed Γ live) (has : e.type.hasValue) :
      Keeps Inv (Proper e.type) (evalWord host calls locals e) :=
    evalWord_keeps proper_admits hostKeeps callsKeep holds typed has
  have truth {live : List Nat} {locals : Locals} (holds : Holds Proper Γ live locals) {cond : Expr}
      (typed : cond.Has Γ live .bool) :
      Keeps Inv (Proper .bool) (evalWord host calls locals cond) :=
    typed.2 ▸ keeps holds typed.1 (by rw [typed.2]; rfl)
  induction s with
  | letIn index value span =>
      intro live locals holds typed
      rw [value_letIn, evalStmts_singleton, evalStmt, evalStmt]
      exact (word holds typed.1).bind (keeps holds typed.1 typed.2.2) fun _ _ => SameUnder.refl _
  | set index value span =>
      intro live locals holds typed
      rw [value_set, evalStmts_singleton, evalStmt, evalStmt]
      exact (word holds typed.1).bind (keeps holds typed.1 typed.2.2) fun _ _ => SameUnder.refl _
  | store slot value span =>
      intro live locals holds typed
      rw [value_store, evalStmts_singleton, evalStmt, evalStmt]
      exact (word holds typed.1).bind (keeps holds typed.1 typed.2.2) fun _ _ => SameUnder.refl _
  | ifThen cond yes no span ihy ihn =>
      intro live locals holds typed
      exact ifThen_sound (word holds typed.1.1) (truth holds typed.1)
        (block_sound_of_forall hostKeeps callsKeep ihy holds typed.2.1)
        (block_sound_of_forall hostKeeps callsKeep ihn holds typed.2.2)
  | whileDo cond body span ih =>
      intro live locals holds typed
      refine whileDo_sound some_round (word holds typed.1.1) (truth holds typed.1)
        (loop_sameUnder (fun locals holds => word holds typed.1.1) (fun locals holds => ?_)
          (fun locals holds => ?_) (fun locals holds => ?_) rounds holds)
      · exact (truth holds typed.1).weaken fun _ _ => trivial
      · exact block_sound_of_forall hostKeeps callsKeep ih holds typed.2
      · exact nested_keeps (by rintro ⟨⟩)
          (evalStmts_keeps proper_admits hostKeeps callsKeep holds typed.2)
  | returns value span =>
      intro live locals holds typed
      rw [value_returns, evalStmts_singleton]
      cases value with
      | none => exact SameUnder.refl _
      | some value =>
          rw [Option.map_some, evalStmt, evalStmt]
          exact (expr_sound hostKeeps callsKeep holds options typed.1.1).bind
            (evalExpr_keeps proper_admits hostKeeps callsKeep holds typed.1.1) fun _ _ =>
            SameUnder.refl _
  | require cond span =>
      intro live locals holds typed
      exact require_sound (word holds typed.1) (truth holds typed)
  | eval value span =>
      intro live locals holds typed
      rw [value_eval, evalStmts_singleton, evalStmt, evalStmt]
      exact (expr_sound hostKeeps callsKeep holds options typed).bind
        (evalExpr_keeps proper_admits hostKeeps callsKeep holds typed) fun _ _ => SameUnder.refl _

/-! ### Functions -/

/-- A function with an optimized body comes to the same as the original one, given a round for every
loop. -/
theorem function_sound {c : Contract} {f : Function} (typed : c.TypedFunction f)
    (hostKeeps : HostKeeps Proper Inv (c.context f).storage host)
    (callsKeep : CallsKeep Proper Inv (c.context f).signatures calls) (options : Options)
    {rounds : Nat} (some_round : rounds ≠ 0) {args : List Word}
    (fit : ArgsFit Proper f.signature.params args) :
    SameUnder Inv ((function options f).eval host calls rounds args)
      (f.eval host calls rounds args) := by
  have count : args.length = f.paramCount := fit.1.trans (Function.length_signature typed)
  have holds := entry_holds typed fit
  unfold Function.eval
  rw [if_neg (fun h => h count), if_neg (fun h => h count)]
  exact (block_sound_of_forall hostKeeps callsKeep
    (fun s _ => stmt_sound hostKeeps callsKeep options some_round s) holds typed.body).bind
    (evalStmts_keeps proper_admits hostKeeps callsKeep holds typed.body) fun _ _ =>
    SameUnder.refl _

end Optimization

open Optimization (Options function function_sound)

/-- Calls of the optimized form keep the results of the signatures of the original one. -/
theorem call_optimize_keeps {c : Contract} (typed : c.Typed)
    (hostKeeps : HostKeeps Proper Inv (c.storage.map (·.type)) host) (options : Options)
    (fuel : Nat) :
    CallsKeep Proper Inv (c.functions.map (·.signature))
      ((c.optimize options).value.call host fuel) := by
  rw [← c.optimize_signatures options]
  exact call_keeps proper_admits (typed.optimize options) hostKeeps fuel

/-- What a call of the optimized form comes to with some fuel, a call of the original form comes to
with more. -/
theorem call_optimize_approximates {c : Contract} (typed : c.Typed)
    (hostKeeps : HostKeeps Proper Inv (c.storage.map (·.type)) host) (options : Options)
    (fuel : Nat) :
    CallsApproximate Proper Inv (c.functions.map (·.signature))
      ((c.optimize options).value.call host fuel) (c.call host (fuel + 1)) := by
  induction fuel with
  | zero => exact fun _ _ _ _ _ => Approximates.outOfFuel _
  | succ fuel ih =>
      intro index sig args declared fit
      rw [List.getElem?_map, Option.map_eq_some_iff] at declared
      obtain ⟨f, found, rfl⟩ := declared
      have typedf := typed f (List.mem_of_getElem? found)
      have callsKeep := call_keeps proper_admits typed hostKeeps (fuel + 1)
      have optimized : (c.optimize options).value.TypedFunction (function options f) := by
        refine typed.optimize options _ ?_
        rw [c.optimize_functions options]
        exact List.mem_map_of_mem (List.mem_of_getElem? found)
      have context := c.optimize_context options f
      rw [Contract.call, c.optimize_functions options, List.getElem?_map, found, Contract.call,
        found]
      have more : Approximates Inv
          ((function options f).eval host ((c.optimize options).value.call host fuel) fuel args)
          ((function options f).eval host (c.call host (fuel + 1)) (fuel + 1) args) :=
        eval_approximates proper_admits optimized (context ▸ hostKeeps) (context ▸ callsKeep)
          (context ▸ ih) (Nat.le_succ fuel) fit
      exact more.trans (Approximates.of_sameUnder
        (function_sound typedf hostKeeps callsKeep options (Nat.succ_ne_zero fuel) fit))

/-- What a call of the original form comes to with some fuel, a call of the optimized form comes to
with more. -/
theorem call_approximates_optimize {c : Contract} (typed : c.Typed)
    (hostKeeps : HostKeeps Proper Inv (c.storage.map (·.type)) host) (options : Options)
    (fuel : Nat) :
    CallsApproximate Proper Inv (c.functions.map (·.signature))
      (c.call host fuel) ((c.optimize options).value.call host (fuel + 1)) := by
  induction fuel with
  | zero => exact fun _ _ _ _ _ => Approximates.outOfFuel _
  | succ fuel ih =>
      intro index sig args declared fit
      rw [List.getElem?_map, Option.map_eq_some_iff] at declared
      obtain ⟨f, found, rfl⟩ := declared
      have typedf := typed f (List.mem_of_getElem? found)
      have callsKeep := call_optimize_keeps typed hostKeeps options (fuel + 1)
      rw [Contract.call, found, Contract.call, c.optimize_functions options, List.getElem?_map,
        found]
      have more : Approximates Inv (f.eval host (c.call host fuel) fuel args)
          (f.eval host ((c.optimize options).value.call host (fuel + 1)) (fuel + 1) args) :=
        eval_approximates proper_admits typedf hostKeeps callsKeep ih (Nat.le_succ fuel) fit
      exact more.trans (Approximates.of_sameUnder
        (function_sound typedf hostKeeps callsKeep options (Nat.succ_ne_zero fuel) fit).symm)

end Workbench.Lowered
