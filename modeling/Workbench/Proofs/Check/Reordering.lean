import Mathlib.Data.List.Perm.Basic
import Workbench.Proofs.Check.Decision
import Workbench.Proofs.Lowered.Renumbering

/-!
# The order of functions

The functions of a contract can be declared in any order. What is checked in one order is checked in
every other, and each function is lowered to the same text, up to the numbers by which it calls the
others.
-/

namespace Workbench.Check

open Lang (Ty)
open Lowered (Expr Stmt Variable Function)

/-! ### Surroundings with other numbers -/

/-- Two surroundings that differ in nothing but the numbers of functions. -/
structure Env.Renumbers (σ : Nat → Nat) (env env' : Env) : Prop where
  storage : env'.storage = env.storage
  result : env'.result = env.result
  isView : env'.isView = env.isView
  function (name : String) :
    env'.function? name = (env.function? name).map fun (index, sig) => (σ index, sig)

section

variable {σ : Nat → Nat} {env env' : Env}

theorem Env.Renumbers.slot? (other : env.Renumbers σ env') (name : String) :
    env'.slot? name = env.slot? name := by
  rw [Env.slot?, Env.slot?, other.storage]

mutual

/-- With other numbers for functions an expression is lowered to the same with these numbers. -/
theorem ExprLowers.renumber (other : env.Renumbers σ env') {scope : Scope} :
    ∀ {e : Syntax.Expr} {e' : Expr}, ExprLowers env scope e e' →
      ExprLowers env' scope e (e'.renumber σ)
  | _, _, .int small => .int small
  | _, _, .bool => .bool
  | _, _, .var found => .var found
  | _, _, .slot hidden found => .slot hidden ((other.slot? _).trans found)
  | _, _, .least => .least
  | _, _, .unary lowers type => .unary (lowers.renumber other) (by rwa [Expr.type_renumber])
  | _, _, .binary left right operands =>
      .binary (left.renumber other) (right.renumber other)
        (by rwa [Expr.type_renumber, Expr.type_renumber])
  | _, _, .call found view lower =>
      .call (by rw [other.function, found, Option.map_some]) (by rwa [other.isView])
        (lower.renumber other)
  | _, _, .builtin unknown found view lower =>
      .builtin (by rw [other.function, unknown, Option.map_none]) found (by rwa [other.isView])
        (lower.renumber other)

theorem ArgsLower.renumber (other : env.Renumbers σ env') {scope : Scope} :
    ∀ {args : List Syntax.Expr} {es : List Expr} {types : List Ty},
      ArgsLower env scope args es types →
      ArgsLower env' scope args (Expr.renumberAll σ es) types
  | _, _, _, .nil => .nil
  | _, _, _, .cons first others => by
      have lower := ArgsLower.cons (first.renumber other) (others.renumber other)
      rwa [Expr.type_renumber] at lower

end

mutual

theorem StmtLowers.renumber (other : env.Renumbers σ env') :
    ∀ {scope : Scope} {s : Syntax.Stmt} {s' : Stmt} {scope' : Scope},
      StmtLowers env scope s s' scope' → StmtLowers env' scope s (s'.renumber σ) scope'
  | _, _, _, _, @StmtLowers.letIn _ _ _ _ _ _ e fresh lowers fits notUnit => by
      rw [← e.type_renumber σ]
      exact .letIn (by rwa [other.storage]) (lowers.renumber other) (by rwa [Expr.type_renumber])
        (by rwa [Expr.type_renumber])
  | _, _, _, _, .set found lowers type =>
      .set found (lowers.renumber other) (by rwa [Expr.type_renumber])
  | _, _, _, _, .store hidden found view lowers type =>
      .store hidden ((other.slot? _).trans found) (other.isView.trans view) (lowers.renumber other)
        (by rwa [Expr.type_renumber])
  | _, _, _, _, .ifThen lowers type yes =>
      .ifThen (lowers.renumber other) (by rwa [Expr.type_renumber]) (yes.renumber other)
  | _, _, _, _, .ifElse lowers type yes no =>
      .ifElse (lowers.renumber other) (by rwa [Expr.type_renumber]) (yes.renumber other)
        (no.renumber other)
  | _, _, _, _, .whileDo lowers type body =>
      .whileDo (lowers.renumber other) (by rwa [Expr.type_renumber]) (body.renumber other)
  | _, _, _, _, .returns unit => .returns (other.result.trans unit)
  | _, _, _, _, .returnsValue lowers notUnit type =>
      .returnsValue (lowers.renumber other) (by rwa [other.result])
        (by rwa [Expr.type_renumber, other.result])
  | _, _, _, _, .require lowers type =>
      .require (lowers.renumber other) (by rwa [Expr.type_renumber])
  | _, _, _, _, .eval lowers => .eval (lowers.renumber other)

theorem BlockLowers.renumber (other : env.Renumbers σ env') :
    ∀ {scope : Scope} {b : Syntax.Block} {body : List Stmt} {scope' : Scope},
      BlockLowers env scope b body scope' →
      BlockLowers env' scope b (Stmt.renumberBlock σ body) scope'
  | _, _, _, _, .mk lower => .mk (lower.renumber other)

theorem StmtsLower.renumber (other : env.Renumbers σ env') :
    ∀ {scope : Scope} {stmts : List Syntax.Stmt} {body : List Stmt} {scope' : Scope},
      StmtsLower env scope stmts body scope' →
      StmtsLower env' scope stmts (Stmt.renumberBlock σ body) scope'
  | _, _, _, _, .nil => .nil
  | _, _, _, _, .cons first others => .cons (first.renumber other) (others.renumber other)

end

end

/-! ### Functions in another order -/

/-- The position behind a change of order of what had a position before. -/
def movedTo (signatures reordered : List Signature) (index : Nat) : Nat :=
  (signatures[index]?.bind fun s => reordered.findIdx? fun s' => s'.name == s.name).getD 0

/-- With their signatures in another order functions have other numbers, and nothing else changes.
-/
theorem renumbers_of_perm {signatures reordered : List Signature}
    (perm : reordered.Perm signatures) (nodup : (signatures.map (·.name)).Nodup)
    (storage : List Variable) (decl : Syntax.FunctionDecl) :
    (Env.ofDecl storage signatures decl).Renumbers (movedTo signatures reordered)
      (Env.ofDecl storage reordered decl) := by
  refine ⟨rfl, rfl, rfl, fun name => ?_⟩
  cases known : (Env.ofDecl storage signatures decl).function? name with
  | none =>
      rw [Option.map_none, Env.function?_eq_none_iff]
      exact fun s mem => Env.function?_eq_none_iff.1 known s (perm.mem_iff.1 mem)
  | some found =>
      obtain ⟨index, sig⟩ := found
      obtain ⟨first, there⟩ := Env.function?_eq_some_iff.1 known
      obtain rfl : sig.name = name := by simpa using of_findIdx? first there
      -- names are distinct, so the first function of this name is this one in either order
      have mem : sig ∈ reordered := perm.mem_iff.2 (List.mem_of_getElem? there)
      obtain ⟨index', first', there'⟩ := exists_findIdx? ((perm.map _).nodup_iff.2 nodup) mem
      obtain rfl : movedTo signatures reordered index = index' := by
        rw [movedTo, show signatures[index]? = some sig from there, Option.bind_some, first',
          Option.getD_some]
      exact Env.function?_eq_some_iff.2 ⟨first', there'⟩

/-- A function is lowered to the same text in another order, up to the numbers in it. -/
theorem FunctionLowers.reorder {signatures reordered : List Signature}
    (perm : reordered.Perm signatures) (nodup : (signatures.map (·.name)).Nodup)
    {storage : List Variable} {decl : Syntax.FunctionDecl} {f : Function}
    (lowers : FunctionLowers storage signatures decl f) :
    FunctionLowers storage reordered decl (f.renumber (movedTo signatures reordered)) := by
  have other := renumbers_of_perm perm nodup storage decl
  obtain @⟨scope, inner, body, params, block, returns⟩ := lowers
  exact .mk params (block.renumber other) (by rwa [Stmt.anyDiverges_renumber])

/-- A contract that is accepted is accepted with its functions in any other order, and its functions
are lowered to the same texts, up to the numbers in them. -/
theorem Accepts.reorder {source reordered : Syntax.Contract} (accepted : Accepts source)
    (functions : reordered.functions.Perm source.functions)
    (storage : reordered.storage = source.storage) :
    Accepts reordered ∧
      (analyze reordered).contract.functions.Perm
        ((analyze source).contract.functions.map
          (Function.renumber (movedTo (signaturesOf source) (signaturesOf reordered)))) := by
  have lowers := accepted.lowers
  have signatures : (signaturesOf reordered).Perm (signaturesOf source) := functions.map _
  have nodup : ((signaturesOf source).map (·.name)).Nodup := by
    rw [signaturesOf, List.map_map]
    exact lowers.functions_nodup
  obtain ⟨fs, lower, perm⟩ := List.perm_comp_forall₂ functions lowers.functions
  have lowersReordered : ContractLowers reordered
      { name := reordered.name.text
        storage := storageOf source
        functions := fs.map
          (Function.renumber (movedTo (signaturesOf source) (signaturesOf reordered)))
        span := reordered.span } := by
    refine ⟨?_, ?_, ?_, ?_, ?_, rfl, rfl⟩
    · rw [storage]
      exact lowers.storage_nodup
    · exact (functions.map _).nodup_iff.2 lowers.functions_nodup
    · exact fun f mem => lowers.noBuiltin f (functions.mem_iff.1 mem)
    · rw [List.forall₂_map_right_iff, storageOf, storage]
      exact lower.imp fun _ _ lowers => lowers.reorder signatures nodup
    · rw [storageOf, storageOf, storage]
  have checked := checkContract_eq_pure_iff.2 lowersReordered
  refine ⟨(accepts_iff reordered).2 (by rw [checked]; rfl), ?_⟩
  rw [analyze, checked]
  exact perm.map _

end Workbench.Check
