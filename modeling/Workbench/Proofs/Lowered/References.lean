import Workbench.Proofs.Lang.Preserving
import Workbench.Proofs.Lowered.OptimizationTyping

/-!
# What code refers to

Code reaches the host through the operations that it names, other functions through its calls, and
the values of its function by the numbers of variables. All of this can be read off its text. A run
does nothing else to the state of the host: what all operations preserve that a function names, or
that one names which it calls, directly or not, its calls preserve. The optimizer adds no reference.
-/

namespace Workbench.Lowered

open Source (Span)
open Lang (Builtin Word Host Eval)
open Lang.Eval (Preserves)

/-- Something outside itself that a piece of code refers to. -/
inductive Reference where
  | operation (kind : Builtin)
  | function (index : Nat)
  | var (index : Nat)
  deriving DecidableEq, Repr

mutual

/-- What an expression refers to, in the order of evaluation. -/
def Expr.references : Expr → List Reference
  | .int .. | .bool .. => []
  | .var index _ _ => [.var index]
  | .slot .. => [.operation .storageLoad]
  | .unary _ operand _ => operand.references
  | .binary _ lhs rhs _ => lhs.references ++ rhs.references
  | .shl value _ _ => value.references
  | .call function args _ _ => referencesOfArgs args ++ [.function function]
  | .builtin kind args _ => referencesOfArgs args ++ [.operation kind]

def referencesOfArgs : List Expr → List Reference
  | [] => []
  | e :: rest => e.references ++ referencesOfArgs rest

end

mutual

/-- What a statement refers to, in the order of its text. -/
def Stmt.references : Stmt → List Reference
  | .letIn index value _ | .set index value _ => value.references ++ [.var index]
  | .require value _ | .eval value _ => value.references
  | .store _ value _ => value.references ++ [.operation .storageStore]
  | .ifThen cond yes no _ => cond.references ++ referencesOf yes ++ referencesOf no
  | .whileDo cond body _ => cond.references ++ referencesOf body
  | .returns (some value) _ => value.references
  | .returns none _ => []

def referencesOf : List Stmt → List Reference
  | [] => []
  | s :: rest => s.references ++ referencesOf rest

end

/-- A set of references with everything that its functions refer to. -/
def Contract.Closed (c : Contract) (within : Reference → Prop) : Prop :=
  ∀ (index : Nat) (f : Function), within (.function index) → c.functions[index]? = some f →
    ∀ r ∈ referencesOf f.body, within r

/-! ### Runs -/

section

variable {State : Type} {Inv : State → Prop} {host : Host State} {calls : Calls State}

/-- Following a reference does not break an invariant of the host. -/
def Reference.Preserves (Inv : State → Prop) (host : Host State) (calls : Calls State) :
    Reference → Prop
  | .operation kind => host.Preserves Inv kind
  | .function index => ∀ args, Eval.Preserves Inv (calls index args)
  | .var _ => True

/-- Following any of some references does not break an invariant of the host. -/
def AllPreserve (Inv : State → Prop) (host : Host State) (calls : Calls State)
    (references : List Reference) : Prop :=
  ∀ r ∈ references, r.Preserves Inv host calls

theorem AllPreserve.append {first rest : List Reference}
    (h : AllPreserve Inv host calls (first ++ rest)) :
    AllPreserve Inv host calls first ∧ AllPreserve Inv host calls rest :=
  List.forall_mem_append.1 h

theorem evalArgs_preserves {locals : Locals} {args : List Expr}
    (each : ∀ a ∈ args, AllPreserve Inv host calls a.references →
      Preserves Inv (evalExpr host calls locals a))
    (h : AllPreserve Inv host calls (referencesOfArgs args)) :
    Preserves Inv (evalArgs host calls locals args) := by
  induction args with
  | nil => exact .pure _
  | cons e es ih =>
      obtain ⟨first, others⟩ := List.forall_mem_cons.1 each
      refine (first h.append.1).bind fun value => (Preserves.needed value).bind fun w => ?_
      exact (ih others h.append.2).bind fun _ => .pure _

theorem evalExpr_preserves {locals : Locals} {e : Expr} :
    AllPreserve Inv host calls e.references → Preserves Inv (evalExpr host calls locals e) := by
  induction e with
  | int value span => exact fun _ => .pure _
  | bool value span => exact fun _ => .pure _
  | var index type span => exact fun _ => (Preserves.needed _).bind fun _ => .pure _
  | slot index type span =>
      intro h
      exact (Preserves.ask (h _ List.mem_cons_self) _).bind fun _ => .pure _
  | unary op operand span ih =>
      intro h
      exact (ih h).bind fun value => (Preserves.needed value).bind fun _ => .pure _
  | binary op lhs rhs span ihl ihr =>
      intro h
      have left := (ihl h.append.1).bind fun value => Preserves.needed value
      have right := (ihr h.append.2).bind fun value => Preserves.needed value
      exact (left.evaluate op right).bind fun _ => .pure _
  | shl value amount span ih =>
      intro h
      exact (ih h).bind fun value => (Preserves.needed value).bind fun _ => .pure _
  | call function args result span ih =>
      intro h
      refine (evalArgs_preserves ih h.append.1).bind fun ws => ?_
      exact h.append.2 _ List.mem_cons_self ws
  | builtin kind args span ih =>
      intro h
      refine (evalArgs_preserves ih h.append.1).bind fun ws => ?_
      exact (Preserves.ask (h.append.2 _ List.mem_cons_self) ws).bind fun _ => .pure _

theorem evalWord_preserves {locals : Locals} {e : Expr}
    (h : AllPreserve Inv host calls e.references) : Preserves Inv (evalWord host calls locals e) :=
  (evalExpr_preserves h).bind fun value => .needed value

theorem evalStmts_preserves_of_forall {rounds : Nat} {body : List Stmt}
    (each : ∀ s ∈ body, AllPreserve Inv host calls s.references →
      ∀ locals, Preserves Inv (evalStmt host calls rounds locals s))
    (h : AllPreserve Inv host calls (referencesOf body)) (locals : Locals) :
    Preserves Inv (evalStmts host calls rounds locals body) := by
  induction body generalizing locals with
  | nil => exact .pure _
  | cons s rest ih =>
      obtain ⟨first, others⟩ := List.forall_mem_cons.1 each
      exact (first h.append.1 locals).bind fun flow => .andThen (ih others h.append.2) flow

theorem evalStmt_preserves {rounds : Nat} {s : Stmt} :
    AllPreserve Inv host calls s.references →
      ∀ locals, Preserves Inv (evalStmt host calls rounds locals s) := by
  induction s with
  | letIn index value span => exact fun h _ => (evalWord_preserves h.append.1).bind fun _ => .pure _
  | set index value span => exact fun h _ => (evalWord_preserves h.append.1).bind fun _ => .pure _
  | store slot value span =>
      intro h locals
      refine (evalWord_preserves h.append.1).bind fun w => ?_
      exact (Preserves.ask (h.append.2 _ List.mem_cons_self) _).bind fun _ => .pure _
  | ifThen cond yes no span ihy ihn =>
      intro h locals
      obtain ⟨h, hn⟩ := h.append
      obtain ⟨hc, hy⟩ := h.append
      refine (evalWord_preserves hc).bind fun w => ?_
      split
      · exact evalStmts_preserves_of_forall ihn hn locals
      · exact evalStmts_preserves_of_forall ihy hy locals
  | whileDo cond body span ih =>
      intro h locals
      exact .loop (fun _ => evalWord_preserves h.append.1)
        (evalStmts_preserves_of_forall ih h.append.2) rounds locals
  | returns value span =>
      intro h locals
      cases value with
      | none => exact .pure _
      | some value => exact (evalExpr_preserves h).bind fun _ => .pure _
  | require cond span =>
      intro h locals
      refine (evalWord_preserves h).bind fun w => ?_
      split
      · exact .throw _
      · exact .pure _
  | eval value span => exact fun h _ => (evalExpr_preserves h).bind fun _ => .pure _

theorem Function.eval_preserves {f : Function}
    (h : AllPreserve Inv host calls (referencesOf f.body)) (rounds : Nat) (args : List Word) :
    Preserves Inv (f.eval host calls rounds args) := by
  unfold Function.eval
  split
  · exact .throw _
  · exact (evalStmts_preserves_of_forall (fun _ _ => evalStmt_preserves) h _).bind fun flow =>
      .resultOf _ flow

/-- A call of a function preserves what all operations preserve that it refers to, directly or by
its calls, however deep they nest. -/
theorem Contract.call_preserves {c : Contract} {within : Reference → Prop}
    (closed : c.Closed within)
    (serves : ∀ kind, within (.operation kind) → host.Preserves Inv kind) (fuel : Nat) {index : Nat}
    (inside : within (.function index)) (args : List Word) :
    Preserves Inv (c.call host fuel index args) := by
  induction fuel generalizing index args with
  | zero => exact .throw _
  | succ fuel ih =>
      rw [Contract.call]
      cases found : c.functions[index]? with
      | none => exact fun _ inv => inv
      | some f =>
          refine Function.eval_preserves (fun r mem => ?_) fuel args
          have reached := closed index f inside found r mem
          cases r with
          | operation kind => exact serves kind reached
          | function callee => exact fun args => ih reached args
          | var index => trivial

end

/-! ### Optimization -/

namespace Optimization

theorem references_of_literal {e : Expr} {w : Word} (h : e.literal? = some w) :
    e.references = [] := by
  cases e <;> first | rfl | contradiction

theorem fold?_references {op : Lang.BinaryOp} {lhs rhs : Expr} {span : Span} {e : Expr}
    (h : fold? op lhs rhs span = some e) : e.references = [] := by
  obtain ⟨_, _, _, -, -, literal, -, -⟩ := fold?_spec h
  exact references_of_literal literal

/-- A simplified operator is one of its operands or a literal. -/
theorem Identity.references_sublist {op : Lang.BinaryOp} {lhs rhs e : Expr}
    (h : Identity op lhs rhs e) : e.references.Sublist (lhs.references ++ rhs.references) := by
  cases h with
  | left => exact List.sublist_append_left _ _
  | right => exact List.sublist_append_right _ _
  | settled _ value => exact references_of_literal value ▸ List.nil_sublist _
  | absorbLeft _ _ value => exact references_of_literal value ▸ List.nil_sublist _
  | absorbRight _ _ value => exact references_of_literal value ▸ List.nil_sublist _

theorem reduceStrength_references_sublist (options : Options) (op : Lang.BinaryOp) (lhs rhs : Expr)
    (span : Span) :
    (reduceStrength options op lhs rhs span).value.references.Sublist
      (lhs.references ++ rhs.references) := by
  rcases reduceStrength_cases options op lhs rhs span with
    ⟨_, _, _, _, value⟩ | ⟨_, _, _, _, _, value⟩ | ⟨_, value⟩ <;> rw [value]
  · exact List.sublist_append_left _ _
  · exact List.sublist_append_right _ _
  · exact List.Sublist.refl _

theorem binary_references_sublist (options : Options) (op : Lang.BinaryOp) (lhs rhs : Expr)
    (span : Span) :
    (binary options op lhs rhs span).value.references.Sublist
      (lhs.references ++ rhs.references) := by
  rcases binary_cases options op lhs rhs span with ⟨e, found, eq⟩ | ⟨e, identity, eq⟩ | eq <;>
    rw [eq]
  · exact fold?_references found ▸ List.nil_sublist _
  · exact identity.references_sublist
  · exact reduceStrength_references_sublist options op lhs rhs span

theorem unary_references_sublist (options : Options) (op : Lang.UnaryOp) (operand : Expr)
    (span : Span) :
    (unary options op operand span).value.references.Sublist operand.references := by
  rcases unary_cases options op operand span with ⟨value, s, rfl, rfl, eq⟩ |
    ⟨value, s, rfl, rfl, eq⟩ | ⟨inner, s, rfl, rfl, eq⟩ | eq <;> rw [eq]
  · exact List.nil_sublist _
  · exact List.nil_sublist _
  · exact List.Sublist.refl _
  · exact List.Sublist.refl _

theorem exprs_references_sublist {options : Options} {args : List Expr}
    (each : ∀ a ∈ args, (expr options a).value.references.Sublist a.references) :
    (referencesOfArgs (exprs options args).value).Sublist (referencesOfArgs args) := by
  induction args with
  | nil => exact List.Sublist.refl _
  | cons e es ih =>
      obtain ⟨first, others⟩ := List.forall_mem_cons.1 each
      exact first.append (ih others)

/-- An optimized expression refers to some of what the original one refers to, in the same order. -/
theorem expr_references_sublist (options : Options) (e : Expr) :
    (expr options e).value.references.Sublist e.references := by
  induction e with
  | unary op operand span ih => exact (unary_references_sublist options op _ span).trans ih
  | binary op lhs rhs span ihl ihr =>
      exact (binary_references_sublist options op _ _ span).trans (ihl.append ihr)
  | shl value amount span ih => exact ih
  | call function args result span ih =>
      exact (exprs_references_sublist ih).append (List.Sublist.refl _)
  | builtin kind args span ih =>
      exact (exprs_references_sublist ih).append (List.Sublist.refl _)
  | _ => exact List.Sublist.refl _

theorem referencesOf_append (first rest : List Stmt) :
    referencesOf (first ++ rest) = referencesOf first ++ referencesOf rest := by
  induction first with
  | nil => rfl
  | cons s first ih => rw [List.cons_append, referencesOf, referencesOf, ih, List.append_assoc]

theorem cutUnreachable_references_sublist (body : List Stmt) :
    (referencesOf (cutUnreachable body)).Sublist (referencesOf body) := by
  induction body with
  | nil => exact List.Sublist.refl _
  | cons s rest ih =>
      rw [cutUnreachable]
      split
      · exact (List.Sublist.refl _).append (List.nil_sublist _)
      · exact (List.Sublist.refl _).append ih

theorem finishBlock_references_sublist (options : Options) (body : List Stmt) :
    (referencesOf (finishBlock options body).value).Sublist (referencesOf body) := by
  unfold finishBlock
  split
  · exact cutUnreachable_references_sublist body
  · exact List.Sublist.refl _

theorem block_references_sublist_of_forall {options : Options} {body : List Stmt}
    (each : ∀ s ∈ body, (referencesOf (stmt options s).value).Sublist s.references) :
    (referencesOf (block options body).value).Sublist (referencesOf body) := by
  rw [value_block]
  refine (finishBlock_references_sublist options _).trans ?_
  induction body with
  | nil =>
      simp [value_stmts_nil]
  | cons s rest ih =>
      obtain ⟨first, others⟩ := List.forall_mem_cons.1 each
      rw [value_stmts_cons, referencesOf_append]
      exact first.append (ih others)

/-- What takes the place of a single statement with the same expression. -/
theorem referencesOf_singleton (s : Stmt) : referencesOf [s] = s.references :=
  List.append_nil _

theorem stmt_references_sublist (options : Options) (s : Stmt) :
    (referencesOf (stmt options s).value).Sublist s.references := by
  induction s with
  | letIn index value span =>
      rw [value_letIn, referencesOf_singleton]
      exact (expr_references_sublist options value).append (List.Sublist.refl _)
  | set index value span =>
      rw [value_set, referencesOf_singleton]
      exact (expr_references_sublist options value).append (List.Sublist.refl _)
  | store slot value span =>
      rw [value_store, referencesOf_singleton]
      exact (expr_references_sublist options value).append (List.Sublist.refl _)
  | ifThen cond yes no span ihy ihn =>
      have hc := expr_references_sublist options cond
      have hy := block_references_sublist_of_forall ihy
      have hn := block_references_sublist_of_forall ihn
      rw [value_ifThen, Stmt.references]
      split
      · exact (hy.trans (List.sublist_append_right _ _)).trans (List.sublist_append_left _ _)
      · split
        · exact hn.trans (List.sublist_append_right _ _)
        · rw [referencesOf_singleton]
          exact (hc.append hy).append hn
  | whileDo cond body span ih =>
      rw [value_whileDo]
      split
      · exact List.nil_sublist _
      · rw [referencesOf_singleton]
        exact (expr_references_sublist options cond).append (block_references_sublist_of_forall ih)
  | returns value span =>
      rw [value_returns, referencesOf_singleton]
      cases value with
      | none => exact List.Sublist.refl _
      | some value => exact expr_references_sublist options value
  | require cond span =>
      rw [value_require]
      split
      · exact List.nil_sublist _
      · rw [referencesOf_singleton]
        exact expr_references_sublist options cond
  | eval value span =>
      rw [value_eval, referencesOf_singleton]
      exact expr_references_sublist options value

/-- An optimized function refers to some of what the original one refers to, in the same order. -/
theorem function_references_sublist (options : Options) (f : Function) :
    (referencesOf (function options f).body).Sublist (referencesOf f.body) :=
  block_references_sublist_of_forall fun s _ => stmt_references_sublist options s

end Optimization

/-- The optimizer leaves a closed set of references closed. -/
theorem Contract.Closed.optimize {c : Contract} {within : Reference → Prop}
    (closed : c.Closed within) (options : Optimization.Options) :
    (c.optimize options).value.Closed within := by
  intro index g inside found r mem
  rw [c.optimize_functions options, List.getElem?_map, Option.map_eq_some_iff] at found
  obtain ⟨f, found, rfl⟩ := found
  have fewer := Optimization.function_references_sublist options f
  exact closed index f inside found r (fewer.subset mem)

end Workbench.Lowered
