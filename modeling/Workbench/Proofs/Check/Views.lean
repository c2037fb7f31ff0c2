import Workbench.Proofs.Check.Acceptance
import Workbench.Proofs.Lowered.References

/-!
# View functions

In a view function the check lets pass neither an assignment to storage nor the call of an operation
or a function that may change something. So view functions refer to no operations but those that
change nothing, and to no functions but view functions.
-/

namespace Workbench.Check

open Lang (Builtin)
open Lowered (Contract Function Reference Expr Stmt referencesOf referencesOfArgs)

/-- References that change nothing by what their declarations say. -/
def Quiet (signatures : List Signature) : Reference → Prop
  | .operation kind => kind.changesState = false
  | .function index => ∃ sig, signatures[index]? = some sig ∧ sig.isView
  | .var _ => True

section

variable {env : Env} {scope : Scope}

mutual

theorem ExprLowers.quiet (view : env.isView) : ∀ {e : Syntax.Expr} {e' : Expr},
    ExprLowers env scope e e' → ∀ r ∈ e'.references, Quiet env.signatures r
  | _, _, .int _ | _, _, .bool | _, _, .least => List.forall_mem_nil _
  | _, _, .var _ => List.forall_mem_singleton.2 trivial
  | _, _, .slot _ _ => List.forall_mem_singleton.2 rfl
  | _, _, .unary lowers _ => lowers.quiet view
  | _, _, .binary left right _ => List.forall_mem_append.2 ⟨left.quiet view, right.quiet view⟩
  | _, _, .call found allowed lower =>
      List.forall_mem_append.2 ⟨lower.quiet view, List.forall_mem_singleton.2
        ⟨_, (Env.function?_eq_some_iff.1 found).2, allowed view⟩⟩
  | _, _, .builtin _ _ allowed lower =>
      List.forall_mem_append.2 ⟨lower.quiet view, List.forall_mem_singleton.2 (allowed view)⟩

theorem ArgsLower.quiet (view : env.isView) : ∀ {args : List Syntax.Expr} {es : List Expr}
    {types : List Lang.Ty}, ArgsLower env scope args es types →
    ∀ r ∈ referencesOfArgs es, Quiet env.signatures r
  | _, _, _, .nil => List.forall_mem_nil _
  | _, _, _, .cons first others =>
      List.forall_mem_append.2 ⟨first.quiet view, others.quiet view⟩

end

mutual

theorem StmtLowers.quiet (view : env.isView) : ∀ {scope : Scope} {s : Syntax.Stmt} {s' : Stmt}
    {scope' : Scope}, StmtLowers env scope s s' scope' → ∀ r ∈ s'.references, Quiet env.signatures r
  | _, _, _, _, .letIn _ lowers _ _ | _, _, _, _, .set _ lowers _ =>
      List.forall_mem_append.2 ⟨lowers.quiet view, List.forall_mem_singleton.2 trivial⟩
  | _, _, _, _, .returnsValue lowers _ _ | _, _, _, _, .require lowers _
  | _, _, _, _, .eval lowers => lowers.quiet view
  | _, _, _, _, .store _ _ notView _ _ => absurd view (by simp [notView])
  | _, _, _, _, .ifThen lowers _ yes =>
      List.forall_mem_append.2
        ⟨List.forall_mem_append.2 ⟨lowers.quiet view, yes.quiet view⟩, List.forall_mem_nil _⟩
  | _, _, _, _, .ifElse lowers _ yes no =>
      List.forall_mem_append.2
        ⟨List.forall_mem_append.2 ⟨lowers.quiet view, yes.quiet view⟩, no.quiet view⟩
  | _, _, _, _, .whileDo lowers _ body =>
      List.forall_mem_append.2 ⟨lowers.quiet view, body.quiet view⟩
  | _, _, _, _, .returns _ => List.forall_mem_nil _

theorem BlockLowers.quiet (view : env.isView) : ∀ {scope : Scope} {b : Syntax.Block}
    {body : List Stmt} {scope' : Scope}, BlockLowers env scope b body scope' →
    ∀ r ∈ referencesOf body, Quiet env.signatures r
  | _, _, _, _, .mk lower => lower.quiet view

theorem StmtsLower.quiet (view : env.isView) : ∀ {scope : Scope} {stmts : List Syntax.Stmt}
    {body : List Stmt} {scope' : Scope}, StmtsLower env scope stmts body scope' →
    ∀ r ∈ referencesOf body, Quiet env.signatures r
  | _, _, _, _, .nil => List.forall_mem_nil _
  | _, _, _, _, .cons first others =>
      List.forall_mem_append.2 ⟨first.quiet view, others.quiet view⟩

end

end

/-! ### Contracts -/

/-- References to operations that change nothing, to view functions and to variables. -/
def Harmless (c : Contract) : Reference → Prop
  | .operation kind => kind.changesState = false
  | .function index => ∃ f, c.functions[index]? = some f ∧ f.isView
  | .var _ => True

theorem FunctionLowers.quiet {storage : List Lowered.Variable} {signatures : List Signature}
    {decl : Syntax.FunctionDecl} {f : Function}
    (lowers : FunctionLowers storage signatures decl f) (view : f.isView) :
    ∀ r ∈ referencesOf f.body, Quiet signatures r := by
  obtain @⟨scope, inner, body, params, block, returns⟩ := lowers
  exact BlockLowers.quiet view block

theorem FunctionLowers.isView_eq {storage : List Lowered.Variable} {signatures : List Signature}
    {decl : Syntax.FunctionDecl} {f : Function}
    (lowers : FunctionLowers storage signatures decl f) : f.isView = decl.isView := by
  cases lowers
  rfl

/-- What is quiet in a declared contract is harmless in its lowered form. -/
theorem ContractLowers.harmless {source : Syntax.Contract} {c : Contract}
    (lowers : ContractLowers source c) {r : Reference} (quiet : Quiet (signaturesOf source) r) :
    Harmless c r := by
  cases r with
  | operation kind => exact quiet
  | function index =>
      obtain ⟨sig, declared, view⟩ := quiet
      rw [signaturesOf, List.getElem?_map, Option.map_eq_some_iff] at declared
      obtain ⟨decl, found, rfl⟩ := declared
      obtain ⟨f, known, lowersFunction⟩ := getElem?_of_forall₂ lowers.functions.flip found
      exact ⟨f, known, lowersFunction.isView_eq.trans view⟩
  | var index => trivial

/-- The view functions of an accepted contract only refer to what is harmless. -/
theorem ContractLowers.closed_harmless {source : Syntax.Contract} {c : Contract}
    (lowers : ContractLowers source c) : c.Closed (Harmless c) := by
  rintro index f ⟨g, known, view⟩ found r mem
  obtain rfl : g = f := Option.some_inj.1 (known.symm.trans found)
  obtain ⟨decl, -, lowersFunction⟩ := lowers.function found
  exact lowers.harmless (lowersFunction.quiet view r mem)

end Workbench.Check
