import Workbench.Proofs.Lowered.Rewrites

/-!
# Optimization keeps typing

Every change of an expression keeps its type, and a statement that is replaced by others still gives
a value to the variables that it declares. So the optimized form of a typed contract is typed
against the same signatures. A function that returned on every path still does: the statement that
control never passes may be replaced, but only by statements of which one has that property.
-/

namespace Workbench.Lowered

namespace Optimization

open Source (Span)
open Lang (Ty UnaryOp BinaryOp Word)

/-! ### Expressions -/

section

variable {Γ : Context} {live : List Nat}

theorem fold?_typed {op : BinaryOp} {lhs rhs : Expr} {span : Span} {e : Expr}
    (h : fold? op lhs rhs span = some e) : e.Has Γ live (binaryType op) := by
  obtain ⟨_, _, _, -, -, literal, -, type⟩ := fold?_spec h
  exact ⟨.of_literal literal, type⟩

theorem Identity.typed {op : BinaryOp} {lhs rhs e : Expr} (h : Identity op lhs rhs e)
    (hl : lhs.Typed Γ live) (hr : rhs.Typed Γ live) (operands : Operands op lhs.type rhs.type) :
    e.Has Γ live (binaryType op) := by
  cases h with
  | left _ type _ => exact ⟨hl, type _ _ operands⟩
  | right _ type _ _ => exact ⟨hr, type _ _ operands⟩
  | settled _ value type _ => exact ⟨.of_literal value, type⟩
  | absorbLeft _ _ value type _ => exact ⟨.of_literal value, type⟩
  | absorbRight _ _ value type _ _ => exact ⟨.of_literal value, type⟩

theorem reduceStrength_typed {options : Options} {op : BinaryOp} {lhs rhs : Expr} {span : Span}
    (hl : lhs.Typed Γ live) (hr : rhs.Typed Γ live) (operands : Operands op lhs.type rhs.type) :
    (reduceStrength options op lhs rhs span).value.Has Γ live (binaryType op) := by
  rcases reduceStrength_cases options op lhs rhs span with
    ⟨amount, _, rfl, right, value⟩ | ⟨amount, _, rfl, _, left, value⟩ | ⟨_, value⟩ <;> rw [value]
  · exact ⟨⟨hl, operands.1, (shiftAmount?_spec right).1⟩, rfl⟩
  · exact ⟨⟨hr, operands.2, (shiftAmount?_spec left).1⟩, rfl⟩
  · exact ⟨⟨hl, hr, operands⟩, rfl⟩

/-- An operator on operands that fit it keeps the type of the operator. -/
theorem binary_typed {options : Options} {op : BinaryOp} {lhs rhs : Expr} {span : Span}
    (hl : lhs.Typed Γ live) (hr : rhs.Typed Γ live) (operands : Operands op lhs.type rhs.type) :
    (binary options op lhs rhs span).value.Has Γ live (binaryType op) := by
  rcases binary_cases options op lhs rhs span with ⟨e, found, eq⟩ | ⟨e, identity, eq⟩ | eq <;>
    rw [eq]
  · exact fold?_typed found
  · exact identity.typed hl hr operands
  · exact reduceStrength_typed hl hr operands

theorem unary_typed {options : Options} {op : UnaryOp} {operand : Expr} {span : Span}
    (h : operand.Has Γ live (unaryType op)) :
    (unary options op operand span).value.Has Γ live (unaryType op) := by
  rcases unary_cases options op operand span with ⟨value, s, rfl, rfl, eq⟩ |
    ⟨value, s, rfl, rfl, eq⟩ | ⟨inner, s, rfl, rfl, eq⟩ | eq <;> rw [eq]
  · exact ⟨trivial, rfl⟩
  · exact ⟨trivial, rfl⟩
  · exact h.1
  · exact ⟨h, rfl⟩

theorem exprs_typed {options : Options} {args : List Expr} {params : List Ty}
    (each : ∀ a ∈ args, a.Typed Γ live → (expr options a).value.Has Γ live a.type)
    (typed : ArgsTyped Γ live args params) :
    ArgsTyped Γ live (exprs options args).value params := by
  induction typed using ArgsTyped.induction with
  | nil => trivial
  | cons he has rest ih =>
      obtain ⟨first, others⟩ := List.forall_mem_cons.1 each
      obtain ⟨typedFirst, type⟩ := first he
      exact ⟨⟨typedFirst, type, has⟩, ih others⟩

/-- An optimized expression is typed and has the type of the original one. -/
theorem expr_typed (options : Options) {e : Expr} (typed : e.Typed Γ live) :
    (expr options e).value.Has Γ live e.type := by
  induction e with
  | int value span => exact ⟨trivial, rfl⟩
  | bool value span => exact ⟨trivial, rfl⟩
  | var index type span => exact ⟨typed, rfl⟩
  | slot index type span => exact ⟨typed, rfl⟩
  | unary op operand span ih =>
      obtain ⟨optimized, type⟩ := ih typed.1
      exact unary_typed ⟨optimized, type.trans typed.2⟩
  | binary op lhs rhs span ihl ihr =>
      obtain ⟨hl, hr, operands⟩ := typed
      obtain ⟨typedl, typel⟩ := ihl hl
      obtain ⟨typedr, typer⟩ := ihr hr
      exact binary_typed typedl typedr (by rw [typel, typer]; exact operands)
  | shl value amount span ih =>
      obtain ⟨optimized, type⟩ := ih typed.1
      exact ⟨⟨optimized, type.trans typed.2.1, typed.2.2⟩, rfl⟩
  | call function args result span ih =>
      obtain ⟨params, declared, argsTyped⟩ := typed
      exact ⟨⟨params, declared, exprs_typed ih argsTyped⟩, rfl⟩
  | builtin kind args span ih => exact ⟨⟨typed.1, exprs_typed ih typed.2⟩, rfl⟩

theorem expr_has {options : Options} {type : Ty} {e : Expr} (typed : e.Has Γ live type) :
    (expr options e).value.Has Γ live type :=
  typed.2 ▸ expr_typed options typed.1

/-! ### Statements

The optimizer recurs on nested blocks, so its equations are stated once, for the changed statements
without their counts. -/

attribute [local simp] stmt stmts block

theorem value_block (options : Options) (body : List Stmt) :
    (block options body).value = (finishBlock options (stmts options body).value).value := by
  simp

theorem value_stmts_nil (options : Options) : (stmts options []).value = [] := by
  simp

theorem value_stmts_cons (options : Options) (s : Stmt) (rest : List Stmt) :
    (stmts options (s :: rest)).value = (stmt options s).value ++ (stmts options rest).value := by
  simp

theorem value_letIn (options : Options) (index : Nat) (value : Expr) (span : Span) :
    (stmt options (.letIn index value span)).value =
      [.letIn index (expr options value).value span] := by
  simp

theorem value_set (options : Options) (index : Nat) (value : Expr) (span : Span) :
    (stmt options (.set index value span)).value =
      [.set index (expr options value).value span] := by
  simp

theorem value_store (options : Options) (slot : Nat) (value : Expr) (span : Span) :
    (stmt options (.store slot value span)).value =
      [.store slot (expr options value).value span] := by
  simp

theorem value_eval (options : Options) (value : Expr) (span : Span) :
    (stmt options (.eval value span)).value = [.eval (expr options value).value span] := by
  simp

theorem value_returns (options : Options) (value : Option Expr) (span : Span) :
    (stmt options (.returns value span)).value =
      [.returns (value.map fun e => (expr options e).value) span] := by
  cases value <;> simp

theorem value_require (options : Options) (cond : Expr) (span : Span) :
    (stmt options (.require cond span)).value =
      if 2 ≤ options.level && isBool true (expr options cond).value then []
      else [.require (expr options cond).value span] := by
  rw [stmt, Counted.value_bind]
  split <;> rfl

theorem value_ifThen (options : Options) (cond : Expr) (yes no : List Stmt) (span : Span) :
    (stmt options (.ifThen cond yes no span)).value =
      if 2 ≤ options.level && isBool true (expr options cond).value then (block options yes).value
      else if 2 ≤ options.level && isBool false (expr options cond).value then
        (block options no).value
      else [.ifThen (expr options cond).value (block options yes).value (block options no).value
        span] := by
  rw [stmt, Counted.value_bind, Counted.value_bind, Counted.value_bind]
  split
  · rfl
  · split <;> rfl

theorem value_whileDo (options : Options) (cond : Expr) (body : List Stmt) (span : Span) :
    (stmt options (.whileDo cond body span)).value =
      if 2 ≤ options.level && isBool false (expr options cond).value then []
      else [.whileDo (expr options cond).value (block options body).value span] := by
  rw [stmt, Counted.value_bind]
  split <;> rfl

/-- Cutting off what is out of reach leaves a typed beginning. -/
theorem cutUnreachable_typed {live : List Nat} {body : List Stmt} (typed : StmtsTyped Γ live body) :
    StmtsTyped Γ live (cutUnreachable body) := by
  induction body generalizing live with
  | nil => exact typed
  | cons s rest ih =>
      rw [cutUnreachable]
      split
      · exact ⟨typed.1, trivial⟩
      · exact ⟨typed.1, ih typed.2⟩

theorem finishBlock_typed {options : Options} {body : List Stmt} (typed : StmtsTyped Γ live body) :
    StmtsTyped Γ live (finishBlock options body).value := by
  unfold finishBlock
  split
  · exact cutUnreachable_typed typed
  · exact typed

/-- Statements are typed in place of a statement: they are typed where it is and give a value to
the variables that it gives a value to. -/
def Replaces (Γ : Context) (live : List Nat) (s : Stmt) (body : List Stmt) : Prop :=
  StmtsTyped Γ live body ∧ s.declares ++ live ⊆ liveAfter live body

theorem stmts_typed_of_forall {options : Options} {body : List Stmt}
    (each : ∀ s ∈ body, ∀ live, s.Typed Γ live → Replaces Γ live s (stmt options s).value)
    {live : List Nat} (typed : StmtsTyped Γ live body) :
    StmtsTyped Γ live (stmts options body).value := by
  induction body generalizing live with
  | nil =>
      rw [value_stmts_nil]
      trivial
  | cons s rest ih =>
      obtain ⟨first, others⟩ := List.forall_mem_cons.1 each
      obtain ⟨typedFirst, sub⟩ := first live typed.1
      rw [value_stmts_cons]
      exact typedFirst.append ((ih others typed.2).weaken sub)

theorem block_typed_of_forall {options : Options} {body : List Stmt}
    (each : ∀ s ∈ body, ∀ live, s.Typed Γ live → Replaces Γ live s (stmt options s).value)
    {live : List Nat} (typed : StmtsTyped Γ live body) :
    StmtsTyped Γ live (block options body).value := by
  rw [value_block]
  exact finishBlock_typed (stmts_typed_of_forall each typed)

/-- A statement that declares nothing may be replaced by any typed statements. -/
theorem Replaces.of_typed {live : List Nat} {s : Stmt} {body : List Stmt}
    (typed : StmtsTyped Γ live body) (declares : s.declares = []) : Replaces Γ live s body := by
  refine ⟨typed, ?_⟩
  rw [declares]
  exact subset_liveAfter live body

/-- An optimized statement is typed in place of the original one. -/
theorem stmt_typed {options : Options} {s : Stmt} :
    ∀ live, s.Typed Γ live → Replaces Γ live s (stmt options s).value := by
  induction s with
  | letIn index value span =>
      intro live typed
      obtain ⟨optimized, type⟩ := expr_typed options typed.1
      rw [value_letIn]
      refine ⟨⟨⟨optimized, ?_⟩, trivial⟩, fun _ h => h⟩
      rw [type]
      exact typed.2
  | set index value span =>
      intro live typed
      obtain ⟨optimized, type⟩ := expr_typed options typed.1
      rw [value_set]
      refine .of_typed ⟨⟨optimized, ?_⟩, trivial⟩ rfl
      rw [type]
      exact typed.2
  | store slot value span =>
      intro live typed
      obtain ⟨optimized, type⟩ := expr_typed options typed.1
      rw [value_store]
      refine .of_typed ⟨⟨optimized, ?_⟩, trivial⟩ rfl
      rw [type]
      exact typed.2
  | ifThen cond yes no span ihy ihn =>
      intro live typed
      have yesTyped := block_typed_of_forall ihy typed.2.1
      have noTyped := block_typed_of_forall ihn typed.2.2
      refine .of_typed ?_ rfl
      rw [value_ifThen]
      split
      · exact yesTyped
      · split
        · exact noTyped
        · exact ⟨⟨expr_has typed.1, yesTyped, noTyped⟩, trivial⟩
  | whileDo cond body span ih =>
      intro live typed
      refine .of_typed ?_ rfl
      rw [value_whileDo]
      split
      · trivial
      · exact ⟨⟨expr_has typed.1, block_typed_of_forall ih typed.2⟩, trivial⟩
  | returns value span =>
      intro live typed
      rw [value_returns]
      cases value with
      | none => exact .of_typed ⟨typed, trivial⟩ rfl
      | some value => exact .of_typed ⟨⟨expr_has typed.1, typed.2⟩, trivial⟩ rfl
  | require cond span =>
      intro live typed
      refine .of_typed ?_ rfl
      rw [value_require]
      split
      · trivial
      · exact ⟨expr_has typed, trivial⟩
  | eval value span =>
      intro live typed
      rw [value_eval]
      exact .of_typed ⟨(expr_typed options typed).1, trivial⟩ rfl

theorem stmts_typed {options : Options} {body : List Stmt} (typed : StmtsTyped Γ live body) :
    StmtsTyped Γ live (stmts options body).value :=
  stmts_typed_of_forall (fun _ _ => stmt_typed) typed

theorem block_typed {options : Options} {body : List Stmt} (typed : StmtsTyped Γ live body) :
    StmtsTyped Γ live (block options body).value :=
  block_typed_of_forall (fun _ _ => stmt_typed) typed

end

/-! ### Statements that control never passes -/

theorem anyDiverges_append (first rest : List Stmt) :
    Stmt.anyDiverges (first ++ rest) = (Stmt.anyDiverges first || Stmt.anyDiverges rest) := by
  induction first with
  | nil => rfl
  | cons s first ih => simp [Stmt.anyDiverges, ih, Bool.or_assoc]

theorem anyDiverges_cutUnreachable (body : List Stmt) :
    Stmt.anyDiverges (cutUnreachable body) = Stmt.anyDiverges body := by
  induction body with
  | nil => rfl
  | cons s rest ih =>
      rw [cutUnreachable]
      split
      case isTrue diverges => simp [Stmt.anyDiverges, diverges]
      case isFalse => simp [Stmt.anyDiverges, ih]

theorem cutUnreachable_idem (body : List Stmt) :
    cutUnreachable (cutUnreachable body) = cutUnreachable body := by
  induction body with
  | nil => rfl
  | cons st rest ih =>
      by_cases diverges : st.diverges
      · simp [cutUnreachable, diverges]
      · simp [cutUnreachable, diverges, ih]

theorem anyDiverges_finishBlock (options : Options) (body : List Stmt) :
    Stmt.anyDiverges (finishBlock options body).value = Stmt.anyDiverges body := by
  unfold finishBlock
  split
  · exact anyDiverges_cutUnreachable body
  · rfl

theorem anyDiverges_stmts_of_forall {options : Options} {body : List Stmt}
    (each : ∀ s ∈ body, s.diverges → Stmt.anyDiverges (stmt options s).value)
    (h : Stmt.anyDiverges body) : Stmt.anyDiverges (stmts options body).value := by
  induction body with
  | nil => contradiction
  | cons s rest ih =>
      obtain ⟨first, others⟩ := List.forall_mem_cons.1 each
      rw [value_stmts_cons, anyDiverges_append]
      rcases Bool.or_eq_true_iff.1 h with diverges | later
      · rw [first diverges, Bool.true_or]
      · rw [ih others later, Bool.or_true]

theorem anyDiverges_block_of_forall {options : Options} {body : List Stmt}
    (each : ∀ s ∈ body, s.diverges → Stmt.anyDiverges (stmt options s).value)
    (h : Stmt.anyDiverges body) : Stmt.anyDiverges (block options body).value := by
  rw [value_block, anyDiverges_finishBlock]
  exact anyDiverges_stmts_of_forall each h

/-- The literal truth is no decided failure, and stays what it is. -/
theorem expr_of_isTrue (options : Options) {cond : Expr} (h : cond.isTrue) :
    (expr options cond).value = cond ∧ isBool false cond = false := by
  cases cond with
  | bool value span =>
      cases value with
      | false => contradiction
      | true => exact ⟨rfl, rfl⟩
  | _ => contradiction

/-- What takes the place of a statement that control never passes has such a statement. -/
theorem anyDiverges_stmt {options : Options} {s : Stmt} :
    s.diverges → Stmt.anyDiverges (stmt options s).value := by
  induction s with
  | returns value span =>
      intro _
      rw [value_returns]
      rfl
  | ifThen cond yes no span ihy ihn =>
      intro h
      obtain ⟨yesDiverges, noDiverges⟩ := Bool.and_eq_true_iff.1 h
      have hy := anyDiverges_block_of_forall ihy yesDiverges
      have hn := anyDiverges_block_of_forall ihn noDiverges
      rw [value_ifThen]
      split
      · exact hy
      · split
        · exact hn
        · simp [Stmt.anyDiverges, Stmt.diverges, hy, hn]
  | whileDo cond body span ih =>
      intro h
      obtain ⟨same, notFalse⟩ := expr_of_isTrue options h
      rw [value_whileDo, same, notFalse, Bool.and_false, if_neg Bool.false_ne_true]
      simpa [Stmt.anyDiverges, Stmt.diverges] using h
  | _ =>
      intro h
      cases h

theorem anyDiverges_block {options : Options} {body : List Stmt} (h : Stmt.anyDiverges body) :
    Stmt.anyDiverges (block options body).value :=
  anyDiverges_block_of_forall (fun _ _ => anyDiverges_stmt) h

/-! ### Contracts -/

/-- A function with an optimized body. -/
def function (options : Options) (f : Function) : Function :=
  { f with body := (block options f.body).value }

theorem functions_value (options : Options) (fs : List Function) :
    (functions options fs).value = fs.map (function options) := by
  induction fs with
  | nil => rfl
  | cons f rest ih =>
      simp only [functions, Counted.value_bind, Counted.value_pure, ih, List.map_cons]
      rfl

end Optimization

open Optimization (Options function functions_value)

theorem Contract.optimize_functions (options : Options) (c : Contract) :
    (c.optimize options).value.functions = c.functions.map (function options) :=
  functions_value options c.functions

theorem Contract.optimize_signatures (options : Options) (c : Contract) :
    (c.optimize options).value.functions.map (·.signature) = c.functions.map (·.signature) := by
  rw [c.optimize_functions options, List.map_map]
  rfl

theorem Contract.optimize_context (options : Options) (c : Contract) (f : Function) :
    (c.optimize options).value.context (function options f) = c.context f := by
  rw [Contract.context, c.optimize_signatures options]
  rfl

/-- The optimized form of a typed contract is typed. -/
theorem Contract.Typed.optimize {c : Contract} (typed : c.Typed) (options : Options) :
    (c.optimize options).value.Typed := by
  intro g hg
  rw [c.optimize_functions options] at hg
  obtain ⟨f, hf, rfl⟩ := List.mem_map.1 hg
  obtain ⟨paramCount, params, body, returns⟩ := typed f hf
  refine ⟨paramCount, params, ?_, fun has => Optimization.anyDiverges_block (returns has)⟩
  rw [c.optimize_context options]
  exact Optimization.block_typed body

end Workbench.Lowered
