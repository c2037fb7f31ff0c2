import Workbench.Proofs.Check.Elaboration

/-!
# What the check accepts is typed

A contract is accepted if the check reports no error about it. The main statement is that the
lowered form of an accepted contract is typed; it is read off the rules by which contracts are
lowered.

The types of a function's variables are only complete once its whole body has been lowered. The
statements about scopes therefore speak about any context that goes on from the variables declared
so far.
-/

namespace Workbench.Check

open Source (Span)
open Lang (Ty ValueType Builtin)
open Syntax (Name)
open Lowered (Expr Stmt Variable Function Contract Context ArgsTyped StmtsTyped liveAfter)

/-! ### Environments and scopes -/

/-- The types of the locals declared so far. -/
def Scope.types (scope : Scope) : List Ty :=
  scope.locals.toList.map (·.type)

/-- What the typing of calls needs to know of a function. -/
def Signature.shape (s : Signature) : Lowered.Signature :=
  ⟨s.params, s.result⟩

/-- A context and an environment say the same. -/
structure Fits (Γ : Context) (env : Env) : Prop where
  storage : Γ.storage = env.storage.map (·.type)
  storage_hasValue : ∀ v ∈ env.storage, v.type.hasValue
  signatures : Γ.signatures = env.signatures.map (·.shape)
  params_hasValue : ∀ s ∈ env.signatures, ∀ t ∈ s.params, t.hasValue
  result : Γ.result = env.result

/-- Every name in scope is bound to a local that has a value of the type of the binding. -/
def Bound (Γ : Context) (live : List Nat) (frames : List (List Binding)) : Prop :=
  ∀ frame ∈ frames, ∀ b ∈ frame,
    b.index ∈ live ∧ Γ.locals[b.index]? = some b.type ∧ b.type.hasValue

theorem Bound.lookup {Γ : Context} {live : List Nat} {scope : Scope}
    (bound : Bound Γ live scope.frames) {name : String} {b : Binding}
    (h : scope.lookup? name = some b) :
    b.index ∈ live ∧ Γ.locals[b.index]? = some b.type ∧ b.type.hasValue := by
  obtain ⟨frame, hframe, found⟩ := List.exists_of_findSome?_eq_some h
  exact bound frame hframe b (List.mem_of_find?_eq_some found)

theorem Bound.enter {Γ : Context} {live : List Nat} {scope : Scope}
    (bound : Bound Γ live scope.frames) : Bound Γ live scope.enter.frames := by
  intro frame hframe
  rcases List.mem_cons.1 hframe with rfl | outer
  · exact fun _ h => nomatch h
  · exact bound frame outer

theorem Bound.weaken {Γ : Context} {live live' : List Nat} {frames : List (List Binding)}
    (bound : Bound Γ live frames) (sub : live ⊆ live') : Bound Γ live' frames :=
  fun frame hframe b hb => ⟨sub (bound frame hframe b hb).1, (bound frame hframe b hb).2⟩

@[simp] theorem Scope.types_declare (scope : Scope) (name : String) (type : Ty) :
    (scope.declare name type).types = scope.types ++ [type] := by
  simp [types, declare]

@[simp] theorem Scope.length_types (scope : Scope) : scope.types.length = scope.locals.size := by
  simp [types]

/-- A new local is the one behind those declared so far. -/
theorem getElem?_of_types_declare {Γ : Context} {scope : Scope} {name : String} {type : Ty}
    (pre : (scope.declare name type).types <+: Γ.locals) :
    Γ.locals[scope.locals.size]? = some type := by
  obtain ⟨rest, h⟩ := pre
  rw [← h, Scope.types_declare, List.append_assoc,
    List.getElem?_append_right (by simp)]
  simp

theorem Bound.declare {Γ : Context} {live : List Nat} {scope : Scope} {name : String} {type : Ty}
    (bound : Bound Γ live scope.frames) (pre : (scope.declare name type).types <+: Γ.locals)
    (has : type.hasValue) :
    Bound Γ (scope.locals.size :: live) (scope.declare name type).frames := by
  have older : Bound Γ (scope.locals.size :: live) scope.frames :=
    bound.weaken (List.subset_cons_self _ _)
  intro frame hframe b hb
  unfold Scope.declare at hframe
  cases hs : scope.frames with
  | nil => simp [hs] at hframe
  | cons inner outer =>
      rw [hs] at older
      simp only [hs, List.mem_cons] at hframe
      rcases hframe with rfl | hframe
      · rcases List.mem_cons.1 hb with rfl | hb
        · exact ⟨List.mem_cons_self, getElem?_of_types_declare pre, has⟩
        · exact older inner List.mem_cons_self b hb
      · exact older frame (List.mem_cons_of_mem _ hframe) b hb

theorem Fits.slot {Γ : Context} {env : Env} (fits : Fits Γ env) {name : String} {index : Nat}
    {type : Ty} (h : env.slot? name = some (index, type)) :
    Γ.storage[index]? = some type ∧ type.hasValue := by
  obtain ⟨-, v, hv, rfl⟩ := Env.slot?_eq_some_iff.1 h
  exact ⟨by rw [fits.storage, List.getElem?_map, hv]; rfl,
    fits.storage_hasValue v (List.mem_of_getElem? hv)⟩

theorem Fits.function {Γ : Context} {env : Env} (fits : Fits Γ env) {name : String} {index : Nat}
    {s : Signature} (h : env.function? name = some (index, s)) :
    Γ.signatures[index]? = some s.shape ∧ ∀ t ∈ s.params, t.hasValue := by
  obtain ⟨-, hs⟩ := Env.function?_eq_some_iff.1 h
  exact ⟨by rw [fits.signatures, List.getElem?_map, hs]; rfl,
    fits.params_hasValue s (List.mem_of_getElem? hs)⟩

theorem hasValue_ty (type : ValueType) : type.ty.hasValue := by
  cases type <;> rfl

/-! ### Scopes that grow -/

theorem prefix_declare (scope : Scope) (name : String) (type : Ty) :
    scope.types <+: (scope.declare name type).types :=
  ⟨[type], (scope.types_declare name type).symm⟩

section

variable {env : Env}

mutual

/-- Statements only add locals. -/
theorem StmtLowers.grows : ∀ {scope : Scope} {s : Syntax.Stmt} {s' : Stmt} {scope' : Scope},
    StmtLowers env scope s s' scope' → scope.types <+: scope'.types
  | scope, _, _, _, @StmtLowers.letIn _ _ name _ _ _ e _ _ _ _ =>
      prefix_declare scope name.text e.type
  | _, _, _, _, .ifThen _ _ yes => yes.grows
  | _, _, _, _, .ifElse _ _ yes no => yes.grows.trans no.grows
  | _, _, _, _, .whileDo _ _ body => body.grows
  | _, _, _, _, .set .. | _, _, _, _, .store .. | _, _, _, _, .returns _
  | _, _, _, _, .returnsValue .. | _, _, _, _, .require .. | _, _, _, _, .eval _ =>
      List.prefix_rfl

theorem BlockLowers.grows : ∀ {scope : Scope} {b : Syntax.Block} {body : List Stmt}
    {scope' : Scope}, BlockLowers env scope b body scope' → scope.types <+: scope'.types
  | _, _, _, _, .mk lower => lower.grows

theorem StmtsLower.grows : ∀ {scope : Scope} {stmts : List Syntax.Stmt} {body : List Stmt}
    {scope' : Scope}, StmtsLower env scope stmts body scope' → scope.types <+: scope'.types
  | _, _, _, _, .nil => List.prefix_rfl
  | _, _, _, _, .cons first others => first.grows.trans others.grows

end

theorem BlockLowers.frames_eq {scope scope' : Scope} {b : Syntax.Block} {body : List Stmt}
    (lowers : BlockLowers env scope b body scope') : scope'.frames = scope.frames := by
  cases lowers
  rfl

end

/-! ### Typing -/

theorem callName?_isSome {name : String} {kind : Builtin}
    (found : Builtin.ofCallName? name = some kind) : kind.callName?.isSome := by
  unfold Builtin.ofCallName? at found
  have called := List.find?_some found
  rw [eq_of_beq called]
  rfl

section

variable {Γ : Context} {env : Env}

mutual

theorem ExprLowers.typed (fits : Fits Γ env) {scope : Scope} {live : List Nat}
    (bound : Bound Γ live scope.frames) : ∀ {e : Syntax.Expr} {e' : Expr},
    ExprLowers env scope e e' → e'.Typed Γ live
  | _, _, .int _ | _, _, .bool | _, _, .least => trivial
  | _, _, .var found => bound.lookup found
  | _, _, .slot _ found => fits.slot found
  | _, _, .unary lowers type => ⟨lowers.typed fits bound, type⟩
  | _, _, .binary left right operands =>
      ⟨left.typed fits bound, right.typed fits bound, operands⟩
  | _, _, @ExprLowers.call _ _ _ _ _ _ sig _ found _ lower =>
      have declared := fits.function found
      ⟨sig.params, declared.1, lower.typed fits bound declared.2⟩
  | _, _, @ExprLowers.builtin _ _ _ _ _ kind _ _ found _ lower =>
      ⟨callName?_isSome found, lower.typed fits bound kind.params_hasValue⟩

theorem ArgsLower.typed (fits : Fits Γ env) {scope : Scope} {live : List Nat}
    (bound : Bound Γ live scope.frames) : ∀ {args : List Syntax.Expr} {es : List Expr}
    {types : List Ty}, ArgsLower env scope args es types → (∀ t ∈ types, t.hasValue) →
    ArgsTyped Γ live es types
  | _, _, _, .nil, _ => trivial
  | _, _, _, .cons first others, has =>
      have has := List.forall_mem_cons.1 has
      ⟨⟨first.typed fits bound, rfl, has.1⟩, others.typed fits bound has.2⟩

end

mutual

/-- A statement is typed in any context that goes on from the locals behind it. -/
theorem StmtLowers.typed (fits : Fits Γ env) : ∀ {scope : Scope} {s : Syntax.Stmt} {s' : Stmt}
    {scope' : Scope}, StmtLowers env scope s s' scope' → ∀ {live : List Nat},
    Bound Γ live scope.frames → scope'.types <+: Γ.locals →
    s'.Typed Γ live ∧ Bound Γ (s'.declares ++ live) scope'.frames
  | _, _, _, _, .letIn _ lowers _ notUnit, _, bound, pre =>
      have has := hasValue_of_ne_unit notUnit
      ⟨⟨lowers.typed fits bound, getElem?_of_types_declare pre, has⟩, bound.declare pre has⟩
  | _, _, _, _, .set found lowers type, _, bound, _ =>
      ⟨⟨lowers.typed fits bound, type ▸ (bound.lookup found).2⟩, bound⟩
  | _, _, _, _, .store _ found _ lowers type, _, bound, _ =>
      ⟨⟨lowers.typed fits bound, type ▸ fits.slot found⟩, bound⟩
  | _, _, _, _, .ifThen lowers type yes, _, bound, pre =>
      ⟨⟨⟨lowers.typed fits bound, type⟩, yes.typed fits bound pre, trivial⟩,
        yes.frames_eq ▸ bound⟩
  | _, _, _, _, .ifElse lowers type yes no, _, bound, pre =>
      have boundNo := yes.frames_eq ▸ bound
      ⟨⟨⟨lowers.typed fits bound, type⟩, yes.typed fits bound (no.grows.trans pre),
        no.typed fits boundNo pre⟩, no.frames_eq ▸ boundNo⟩
  | _, _, _, _, .whileDo lowers type body, _, bound, pre =>
      ⟨⟨⟨lowers.typed fits bound, type⟩, body.typed fits bound pre⟩, body.frames_eq ▸ bound⟩
  | _, _, _, _, .returns unit, _, bound, _ => ⟨fits.result.trans unit, bound⟩
  | _, _, _, _, .returnsValue lowers notUnit type, _, bound, _ =>
      ⟨⟨⟨lowers.typed fits bound, type.trans fits.result.symm⟩,
        fits.result ▸ hasValue_of_ne_unit notUnit⟩, bound⟩
  | _, _, _, _, .require lowers type, _, bound, _ => ⟨⟨lowers.typed fits bound, type⟩, bound⟩
  | _, _, _, _, .eval lowers, _, bound, _ => ⟨lowers.typed fits bound, bound⟩

theorem BlockLowers.typed (fits : Fits Γ env) : ∀ {scope : Scope} {b : Syntax.Block}
    {body : List Stmt} {scope' : Scope}, BlockLowers env scope b body scope' → ∀ {live : List Nat},
    Bound Γ live scope.frames → scope'.types <+: Γ.locals → StmtsTyped Γ live body
  | _, _, _, _, .mk lower, _, bound, pre => lower.typed fits bound.enter pre

theorem StmtsLower.typed (fits : Fits Γ env) : ∀ {scope : Scope} {stmts : List Syntax.Stmt}
    {body : List Stmt} {scope' : Scope}, StmtsLower env scope stmts body scope' →
    ∀ {live : List Nat}, Bound Γ live scope.frames → scope'.types <+: Γ.locals →
    StmtsTyped Γ live body
  | _, _, _, _, .nil, _, _, _ => trivial
  | _, _, _, _, .cons first others, _, bound, pre =>
      have typed := first.typed fits bound (others.grows.trans pre)
      ⟨typed.1, others.typed fits typed.2 pre⟩

end

end

/-! ### Declarations -/

/-- Parameters become the first locals. -/
theorem ParamsLower.types {storage : List Variable} {scope scope' : Scope}
    {params : List Syntax.Param} (lower : ParamsLower storage scope params scope') :
    scope'.types = scope.types ++ params.map (·.type.ty) := by
  induction lower with
  | nil => simp
  | cons _ _ _ ih => simp [ih]

/-- Parameters have a value from the start. -/
theorem ParamsLower.bound {Γ : Context} {storage : List Variable} {scope scope' : Scope}
    {params : List Syntax.Param} (lower : ParamsLower storage scope params scope')
    (pre : scope'.types <+: Γ.locals)
    (bound : Bound Γ (List.range scope.locals.size) scope.frames) :
    Bound Γ (List.range scope'.locals.size) scope'.frames := by
  induction lower with
  | nil => exact bound
  | @cons scope scope' p rest _ _ lower ih =>
      have declared : (scope.declare p.name.text p.type.ty).types <+: Γ.locals :=
        List.IsPrefix.trans ⟨_, lower.types.symm⟩ pre
      refine ih pre ((bound.declare declared (hasValue_ty p.type)).weaken fun i hi => ?_)
      simp only [Scope.declare, Array.size_push, List.mem_range, List.mem_cons] at hi ⊢
      omega

section

variable {storage : List Variable} {signatures : List Signature} {decl : Syntax.FunctionDecl}
  {f : Function}

/-- The types of the parameters of a function are those of its declaration. -/
theorem FunctionLowers.params_types (lowers : FunctionLowers storage signatures decl f) :
    f.params.map (·.type) = decl.params.map (·.type.ty) := by
  obtain @⟨scope, inner, body, params, block, returns⟩ := lowers
  have types : scope.types = decl.params.map (·.type.ty) := params.types
  have first := List.prefix_iff_eq_take.1 block.grows
  rw [← types, first, Scope.length_types, Function.params, List.map_take]
  rfl

theorem FunctionLowers.signature_eq (lowers : FunctionLowers storage signatures decl f) :
    f.signature = (Signature.ofDecl decl).shape := by
  rw [Function.signature, lowers.params_types]
  cases lowers
  rfl

/-- A function is typed in a contract with the storage and the signatures that it was lowered
against. -/
theorem FunctionLowers.typed (lowers : FunctionLowers storage signatures decl f)
    (hasStorage : ∀ v ∈ storage, v.type.hasValue)
    (hasParams : ∀ s ∈ signatures, ∀ t ∈ s.params, t.hasValue) {c : Contract}
    (hs : c.storage = storage) (hg : c.functions.map (·.signature) = signatures.map (·.shape)) :
    c.TypedFunction f := by
  have paramTypes := lowers.params_types
  obtain @⟨scope, inner, body, params, block, returns⟩ := lowers
  constructor
  · simpa using block.grows.length_le
  · intro v hv
    obtain ⟨p, -, same⟩ := List.mem_map.1 (paramTypes ▸ List.mem_map_of_mem hv)
    exact same ▸ hasValue_ty p.type
  · refine block.typed ⟨by rw [← hs]; rfl, hasStorage, hg, hasParams, rfl⟩
      (params.bound block.grows ?_) List.prefix_rfl
    intro frame hframe b hb
    cases List.mem_singleton.1 hframe
    contradiction
  · intro has
    refine returns ?_
    rintro unit
    rw [unit] at has
    contradiction

end

/-- The lowered form of a contract is typed. -/
theorem ContractLowers.typed {source : Syntax.Contract} {c : Contract}
    (lowers : ContractLowers source c) : c.Typed := by
  have hasStorage : ∀ v ∈ storageOf source, v.type.hasValue := by
    intro v hv
    obtain ⟨d, -, rfl⟩ := List.mem_map.1 hv
    exact hasValue_ty d.type
  have hasParams : ∀ s ∈ signaturesOf source, ∀ t ∈ s.params, t.hasValue := by
    intro s hs t ht
    obtain ⟨decl, -, rfl⟩ := List.mem_map.1 hs
    obtain ⟨p, -, rfl⟩ := List.mem_map.1 ht
    exact hasValue_ty p.type
  have signatures : c.functions.map (·.signature) = (signaturesOf source).map (·.shape) := by
    have each : List.Forall₂ Eq (source.functions.map fun d => (Signature.ofDecl d).shape)
        (c.functions.map (·.signature)) := by
      simpa only [List.forall₂_map_left_iff, List.forall₂_map_right_iff] using
        lowers.functions.imp fun _ _ h => h.signature_eq.symm
    rw [List.forall₂_eq_eq_eq] at each
    rw [← each, signaturesOf, List.map_map]
    rfl
  intro f hf
  obtain ⟨index, found⟩ := List.mem_iff_getElem?.1 hf
  obtain ⟨decl, -, lowersFunction⟩ := lowers.function found
  exact lowersFunction.typed hasStorage hasParams lowers.storage signatures

/-! ### Acceptance -/

/-- The check reports no error about a contract. -/
def Accepts (contract : Syntax.Contract) : Prop :=
  ∀ d ∈ (analyze contract).diagnostics, d.severity ≠ .error

/-- The check only reports errors, so an accepted contract has met none of its problems. -/
theorem accepts_iff (contract : Syntax.Contract) :
    Accepts contract ↔ (checkContract contract).problems = [] := by
  simp [Accepts, analyze, Located.diagnostic, List.eq_nil_iff_forall_not_mem]

/-- The lowered form of an accepted contract follows by the rules. -/
theorem Accepts.lowers {contract : Syntax.Contract} (h : Accepts contract) :
    ContractLowers contract (analyze contract).contract :=
  checkContract_ensures contract ((accepts_iff contract).1 h)

/-- The lowered form of an accepted contract is typed. -/
theorem Accepts.typed {contract : Syntax.Contract} (h : Accepts contract) :
    (analyze contract).contract.Typed :=
  h.lowers.typed

/-- A contract with a function that branches, computes, and traps if a slot says so. -/
def sample : Syntax.Contract :=
  let span : Span := ⟨0, 0⟩
  let name (text : String) : Name := ⟨text, span⟩
  let cond : Syntax.Expr :=
    .binary .and (.unary .not (.unary .not (.name "b" span) span) span) (.bool true span) span
  let product : Syntax.Expr := .binary .mul (.name "x" span) (.int 8 span) span
  { name := name "Sample"
    storage := [⟨name "open", .bool, span⟩]
    functions :=
      [{ name := name "pick"
         params := [⟨name "x", .i32⟩, ⟨name "b", .bool⟩]
         result := some .i32
         isPublic := true
         isView := true
         body := .mk
           [.ifThen cond (.mk [.returns (some product) span] span) none span,
             .require (.name "open" span) span, .returns (some (.name "x" span)) span] span
         span }]
    span }

theorem accepts_sample : Accepts sample :=
  (accepts_iff sample).2 rfl

end Workbench.Check
