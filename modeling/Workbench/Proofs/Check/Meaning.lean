import Workbench.Proofs.Check.Mirroring
import Workbench.Proofs.Lang.Ledger
import Workbench.Proofs.Lang.Relating
import Workbench.Proofs.Lowered.Fuel

/-!
# Lowering keeps the meaning of accepted contracts

A call of a function comes to the same in an accepted contract as it is written, with scopes and
names, as in its lowered form, with one table of locals for each call and with numbers for functions
and slots. Expressions have the same evaluation; statements have evaluations that are alike as long
as the scopes and the table mirror each other. As much fuel is used in both forms, so that the
statement about calls is an equation, by induction on the fuel.
-/

namespace Workbench.Check

open Lang (Ty Word Host Eval Flow Halt Ledger)
open Lang.Eval (Alike)
open Lowered (Locals Expr Stmt Function Contract)

/-! ### Names and numbers -/

/-- An environment has the storage and the functions of a contract. -/
structure Describes (source : Syntax.Contract) (env : Env) : Prop where
  storage : env.storage = storageOf source
  signatures : env.signatures = signaturesOf source

theorem describes_ofDecl (source : Syntax.Contract) (decl : Syntax.FunctionDecl) :
    Describes source (.ofDecl (storageOf source) (signaturesOf source) decl) :=
  ⟨rfl, rfl⟩

namespace Describes

variable {source : Syntax.Contract} {env : Env}

theorem slot (describes : Describes source env) {name : String} {index : Nat} {type : Ty}
    (found : env.slot? name = some (index, type)) : source.slot? name = some index := by
  obtain ⟨hi, -⟩ := Env.slot?_eq_some_iff.1 found
  rwa [describes.storage, storageOf, List.findIdx?_map] at hi

theorem function (describes : Describes source env) {name : String} {index : Nat} {sig : Signature}
    (found : env.function? name = some (index, sig)) :
    ∃ decl, source.functions[index]? = some decl ∧ source.function? name = some decl ∧
      sig = Signature.ofDecl decl := by
  obtain ⟨hi, hs⟩ := Env.function?_eq_some_iff.1 found
  rw [describes.signatures, signaturesOf, List.getElem?_map, Option.map_eq_some_iff] at hs
  obtain ⟨decl, hd, rfl⟩ := hs
  refine ⟨decl, hd, ?_, rfl⟩
  rw [describes.signatures, signaturesOf, List.findIdx?_map,
    List.findIdx?_eq_some_iff_getElem] at hi
  obtain ⟨lt, named, first⟩ := hi
  obtain rfl : source.functions[index] = decl := by simpa [lt] using hd
  refine List.find?_eq_some_iff_getElem.2 ⟨named, index, lt, rfl, fun j hj => ?_⟩
  simpa [Signature.ofDecl] using first j hj

theorem noFunction (describes : Describes source env) {name : String}
    (missing : env.function? name = none) : source.function? name = none := by
  rw [Env.function?_eq_none_iff, describes.signatures] at missing
  refine List.find?_eq_none.2 fun f hf => ?_
  simpa [Signature.ofDecl] using missing _ (List.mem_map_of_mem hf)

end Describes

/-- Calls by name of a function of a contract come to the same as calls by its number. -/
def CallsAgree {State : Type} (source : Syntax.Contract) (calls : Syntax.Calls State)
    (calls' : Lowered.Calls State) : Prop :=
  ∀ name index decl, source.functions[index]? = some decl → source.function? name = some decl →
    ∀ args, calls name args = calls' index args

section

variable {State : Type} {source : Syntax.Contract} {env : Env} {host : Host State}
  {calls : Syntax.Calls State} {calls' : Lowered.Calls State}

/-! ### Expressions -/

section

variable {size : Nat} {scope : Scope} {scopes : Syntax.Scopes} {locals : Locals}

mutual

/-- An expression is evaluated in the same way over variables in sight and over locals. -/
theorem ExprLowers.evalExpr_eq (describes : Describes source env)
    (agree : CallsAgree source calls calls') (mirror : Mirrors size scope.frames scopes locals) :
    ∀ {e : Syntax.Expr} {e' : Expr}, ExprLowers env scope e e' →
      Syntax.evalExpr source host calls scopes e = Lowered.evalExpr host calls' locals e'
  | _, _, .int _ => by rw [Syntax.evalExpr, Lowered.evalExpr]
  | _, _, .bool => by rw [Syntax.evalExpr, Lowered.evalExpr]
  | _, _, .var found => by
      obtain ⟨value, hv, holds⟩ := mirror.frames.bound found
      rw [Syntax.evalExpr, Syntax.evalName, hv, Lowered.evalExpr, holds]
      rfl
  | _, _, .slot hidden found => by
      rw [Syntax.evalExpr, Syntax.evalName, (mirror.frames.unbound hidden 0).1,
        describes.slot found, Lowered.evalExpr]
      rfl
  | _, _, .least => by
      rw [Syntax.evalExpr, Syntax.evalExpr, Lowered.evalExpr]
      rfl
  | _, _, .unary lowers _ => by
      rw [Syntax.evalExpr, Lowered.evalExpr, lowers.evalExpr_eq describes agree mirror]
  | _, _, .binary left right _ => by
      rw [Syntax.evalExpr, Lowered.evalExpr, left.evalExpr_eq describes agree mirror,
        right.evalExpr_eq describes agree mirror]
  | _, _, .call found _ lower => by
      obtain ⟨decl, numbered, named, -⟩ := describes.function found
      rw [Syntax.evalExpr, Lowered.evalExpr, lower.evalArgs_eq describes agree mirror]
      refine congrArg _ (funext fun args => ?_)
      rw [Syntax.evalCall, named]
      exact agree _ _ _ numbered named args
  | _, _, .builtin unknown found _ lower => by
      rw [Syntax.evalExpr, Lowered.evalExpr, lower.evalArgs_eq describes agree mirror]
      refine congrArg _ (funext fun args => ?_)
      rw [Syntax.evalCall, describes.noFunction unknown, found]
      rfl

theorem ArgsLower.evalArgs_eq (describes : Describes source env)
    (agree : CallsAgree source calls calls') (mirror : Mirrors size scope.frames scopes locals) :
    ∀ {args : List Syntax.Expr} {es : List Expr} {types : List Ty},
      ArgsLower env scope args es types →
      Syntax.evalArgs source host calls scopes args = Lowered.evalArgs host calls' locals es
  | _, _, _, .nil => by rw [Syntax.evalArgs, Lowered.evalArgs]
  | _, _, _, .cons first others => by
      rw [Syntax.evalArgs, Lowered.evalArgs, first.evalExpr_eq describes agree mirror,
        others.evalArgs_eq describes agree mirror]

end

theorem ExprLowers.evalWord_eq (describes : Describes source env)
    (agree : CallsAgree source calls calls') (mirror : Mirrors size scope.frames scopes locals)
    {e : Syntax.Expr} {e' : Expr} (lowers : ExprLowers env scope e e') :
    Syntax.evalWord source host calls scopes e = Lowered.evalWord host calls' locals e' := by
  rw [Syntax.evalWord, Lowered.evalWord, lowers.evalExpr_eq describes agree mirror]

end

/-! ### Statements -/

mutual

/-- A statement has the same end over variables in sight and over locals, and leaves variables and
locals that mirror each other. -/
theorem StmtLowers.evalStmt_alike (describes : Describes source env)
    (agree : CallsAgree source calls calls') {size : Nat} (rounds : Nat) : ∀ {scope : Scope}
    {s : Syntax.Stmt} {s' : Stmt} {scope' : Scope}, StmtLowers env scope s s' scope' →
    scope.Apart → scope'.locals.size ≤ size → ∀ {scopes : Syntax.Scopes} {locals : Locals},
    Mirrors size scope.frames scopes locals →
    Alike (Flow.Alike (Mirrors size scope'.frames))
      (Syntax.evalStmt source host calls rounds scopes s)
      (Lowered.evalStmt host calls' rounds locals s')
  | scope, _, _, _, .letIn _ lowers _ _, apart, room, scopes, locals, mirror => by
      rw [Syntax.evalStmt, Lowered.evalStmt, lowers.evalWord_eq describes agree mirror]
      rw [Scope.size_declare] at room
      exact .bind_same _ fun w => .pure (.next (mirror.declare apart room _ _ w))
  | _, _, _, _, .set found lowers _, apart, _, scopes, locals, mirror => by
      rw [Syntax.evalStmt, Lowered.evalStmt, lowers.evalWord_eq describes agree mirror]
      refine .bind_same _ fun w => ?_
      obtain ⟨scopes', set, mirror'⟩ := mirror.set apart found w
      rw [Syntax.evalAssign, set]
      exact .pure (.next mirror')
  | _, _, _, _, .store hidden found _ lowers _, _, _, scopes, locals, mirror => by
      rw [Syntax.evalStmt, Lowered.evalStmt, lowers.evalWord_eq describes agree mirror]
      refine .bind_same _ fun w => ?_
      rw [Syntax.evalAssign, (mirror.frames.unbound hidden w).2, describes.slot found]
      exact .bind_same _ fun _ => .pure (.next mirror)
  | _, _, _, _, .ifThen lowers _ yes, apart, room, scopes, locals, mirror => by
      rw [Syntax.evalStmt, Lowered.evalStmt, lowers.evalWord_eq describes agree mirror]
      refine .bind_same _ fun w => ?_
      split
      · exact .pure (.next (yes.frames_eq ▸ mirror))
      · exact yes.evalBlock_alike describes agree rounds apart room mirror
  | _, _, _, _, .ifElse lowers _ yes no, apart, room, scopes, locals, mirror => by
      rw [Syntax.evalStmt, Lowered.evalStmt, lowers.evalWord_eq describes agree mirror]
      have apartNo := apart.later yes.frames_eq yes.grows
      refine .bind_same _ fun w => ?_
      split
      · exact no.evalBlock_alike describes agree rounds apartNo room (yes.frames_eq ▸ mirror)
      · exact no.frames_eq ▸ yes.evalBlock_alike describes agree rounds apart
          (Nat.le_trans (Scope.size_le no.grows) room) mirror
  | scope, _, _, _, .whileDo lowers _ body, apart, room, scopes, locals, mirror => by
      rw [Syntax.evalStmt, Lowered.evalStmt, body.frames_eq]
      refine .loop (R := Mirrors size scope.frames)
        (fun _ _ mirror => lowers.evalWord_eq describes agree mirror) (fun _ _ mirror => ?_)
        rounds mirror
      exact body.frames_eq ▸ body.evalBlock_alike describes agree rounds apart room mirror
  | _, _, _, _, .returns _, _, _, scopes, locals, mirror => by
      rw [Syntax.evalStmt, Lowered.evalStmt]
      exact .pure .returned
  | _, _, _, _, .returnsValue lowers _ _, _, _, scopes, locals, mirror => by
      rw [Syntax.evalStmt, Lowered.evalStmt, lowers.evalExpr_eq describes agree mirror]
      exact .bind_same _ fun _ => .pure .returned
  | _, _, _, _, .require lowers _, _, _, scopes, locals, mirror => by
      rw [Syntax.evalStmt, Lowered.evalStmt, lowers.evalWord_eq describes agree mirror]
      refine .bind_same _ fun w => ?_
      split
      · exact .throw _
      · exact .pure (.next mirror)
  | _, _, _, _, .eval lowers, _, _, scopes, locals, mirror => by
      rw [Syntax.evalStmt, Lowered.evalStmt, lowers.evalExpr_eq describes agree mirror]
      exact .bind_same _ fun _ => .pure (.next mirror)

theorem BlockLowers.evalBlock_alike (describes : Describes source env)
    (agree : CallsAgree source calls calls') {size : Nat} (rounds : Nat) : ∀ {scope : Scope}
    {b : Syntax.Block} {body : List Stmt} {scope' : Scope}, BlockLowers env scope b body scope' →
    scope.Apart → scope'.locals.size ≤ size → ∀ {scopes : Syntax.Scopes} {locals : Locals},
    Mirrors size scope.frames scopes locals →
    Alike (Flow.Alike (Mirrors size scope'.frames))
      (Syntax.evalBlock source host calls rounds scopes b)
      (Lowered.evalStmts host calls' rounds locals body)
  | _, _, _, _, .mk lower, apart, room, scopes, locals, mirror => by
      have inner := lower.evalStmts_alike describes agree rounds apart.enter room mirror.enter
      rw [Syntax.evalBlock, ← bind_pure (Lowered.evalStmts host calls' rounds locals _)]
      refine inner.bind fun _ _ flows => ?_
      cases flows with
      | next mirror => exact .pure (.next (mirror.leave lower.tail_frames))
      | returned => exact .pure .returned

theorem StmtsLower.evalStmts_alike (describes : Describes source env)
    (agree : CallsAgree source calls calls') {size : Nat} (rounds : Nat) : ∀ {scope : Scope}
    {stmts : List Syntax.Stmt} {body : List Stmt} {scope' : Scope},
    StmtsLower env scope stmts body scope' →
    scope.Apart → scope'.locals.size ≤ size → ∀ {scopes : Syntax.Scopes} {locals : Locals},
    Mirrors size scope.frames scopes locals →
    Alike (Flow.Alike (Mirrors size scope'.frames))
      (Syntax.evalStmts source host calls rounds scopes stmts)
      (Lowered.evalStmts host calls' rounds locals body)
  | _, _, _, _, .nil, _, _, scopes, locals, mirror => by
      rw [Syntax.evalStmts, Lowered.evalStmts]
      exact .pure (.next mirror)
  | _, _, _, _, .cons first others, apart, room, scopes, locals, mirror => by
      rw [Syntax.evalStmts, Lowered.evalStmts]
      have head := first.evalStmt_alike describes agree rounds apart
        (Nat.le_trans (Scope.size_le others.grows) room) mirror
      refine head.bind fun _ _ flows => .andThen flows fun _ _ mirror => ?_
      exact others.evalStmts_alike describes agree rounds (first.apart apart) room mirror

end

/-! ### Functions -/

theorem hasValue_ofResult (result : Option Lang.ValueType) :
    (Ty.ofResult result).hasValue = result.isSome := by
  cases result with
  | none => rfl
  | some type => exact hasValue_ty type

theorem ParamsLower.size_eq {storage : List Lowered.Variable} {params : List Syntax.Param}
    {scope : Scope} (lower : ParamsLower storage ⟨#[], [[]]⟩ params scope) :
    scope.locals.size = params.length := by
  simpa [Scope.types] using congrArg List.length lower.types

theorem FunctionLowers.paramCount_eq {storage : List Lowered.Variable}
    {signatures : List Signature} {decl : Syntax.FunctionDecl} {f : Function}
    (lowers : FunctionLowers storage signatures decl f) :
    f.paramCount = decl.params.length := by
  obtain ⟨params, -, -⟩ := lowers
  exact params.size_eq

/-- A function starts with its parameters in sight and in the table. -/
theorem entry_mirrors {storage : List Lowered.Variable} {decl : Syntax.FunctionDecl}
    {scope : Scope} (params : ParamsLower storage ⟨#[], [[]]⟩ decl.params scope) {size : Nat}
    (room : scope.locals.size ≤ size) {args : List Word}
    (count : args.length = decl.params.length) :
    Mirrors size scope.frames (decl.entry args)
      (args.map some ++ List.replicate (size - scope.locals.size) none) := by
  refine ⟨params.mirrors rfl (.nil _) count (List.prefix_append _ _), ?_⟩
  have enough := params.size_eq
  rw [List.length_append, List.length_map, List.length_replicate]
  omega

/-- A body means the same over variables in sight and over locals. -/
theorem FunctionLowers.eval_eq {decl : Syntax.FunctionDecl} {f : Function}
    (lowers : FunctionLowers (storageOf source) (signaturesOf source) decl f)
    (agree : CallsAgree source calls calls') (rounds : Nat) (args : List Word) :
    decl.eval source host calls rounds args = f.eval host calls' rounds args := by
  obtain @⟨scope, inner, body, params, block, returns⟩ := lowers
  have size := params.size_eq
  unfold Syntax.FunctionDecl.eval Lowered.Function.eval
  rw [hasValue_ofResult]
  by_cases count : args.length = decl.params.length
  · rw [if_neg (fun h => h count), if_neg (fun h => h (count.trans size.symm))]
    have apart : scope.Apart := params.apart ⟨by simp, by simp, fun _ h => by simp at h⟩
    have room : inner.locals.size ≤ inner.locals.toList.length :=
      Nat.le_of_eq Array.length_toList.symm
    have mirror := entry_mirrors params (Nat.le_trans (Scope.size_le block.grows) room) count
    exact Alike.resultOf _ (block.evalBlock_alike (describes_ofDecl source decl) agree rounds
      apart room mirror)
  · rw [if_pos count, if_pos (by rwa [size])]
    rfl

end

/-! ### Calls -/

/-- The function of a number is that of its name. -/
theorem function?_of_getElem? {source : Syntax.Contract}
    (nodup : (source.functions.map (·.name.text)).Nodup) {index : Nat}
    {decl : Syntax.FunctionDecl} (found : source.functions[index]? = some decl) :
    source.function? decl.name.text = some decl := by
  have mem := List.mem_of_getElem? found
  obtain ⟨other, named⟩ := Option.isSome_iff_exists.1
    (List.find?_isSome (p := fun f : Syntax.FunctionDecl => f.name.text == decl.name.text).2
      ⟨decl, mem, beq_self_eq_true _⟩)
  have same : other.name.text = decl.name.text := by simpa using List.find?_some named
  exact List.inj_on_of_nodup_map nodup (List.mem_of_find?_eq_some named) mem same ▸ named

/-- With as much fuel, a call by name is a call by number. -/
theorem ContractLowers.call_eq {State : Type} {source : Syntax.Contract} {c : Contract}
    (lowers : ContractLowers source c) (host : Host State) (fuel : Nat) :
    CallsAgree source (source.call host fuel) (c.call host fuel) := by
  induction fuel with
  | zero => exact fun _ _ _ _ _ _ => rfl
  | succ fuel ih =>
      intro name index decl numbered named args
      obtain ⟨f, found, lowersFunction⟩ := getElem?_of_forall₂ lowers.functions.flip numbered
      rw [Syntax.Contract.call, named, Contract.call, found]
      exact lowersFunction.eval_eq ih fuel args

/-! ### Accepted contracts -/

/-- A call by name comes to an end: some fuel leads to it. -/
def Evaluates {State : Type} (source : Syntax.Contract) (host : Host State) (name : String)
    (args : List Word) (state : State) (result : Except Halt (Option Word)) (final : State) :
    Prop :=
  result ≠ .error .outOfFuel ∧
    ∃ fuel, (source.call host fuel name args).outcome state = (result, final)

theorem ContractLowers.evaluates_iff {State : Type} {source : Syntax.Contract} {c : Contract}
    (lowers : ContractLowers source c) (host : Host State) {index : Nat}
    {decl : Syntax.FunctionDecl} (found : source.functions[index]? = some decl) (args : List Word)
    (state : State) (result : Except Halt (Option Word)) (final : State) :
    Evaluates source host decl.name.text args state result final ↔
      c.Evaluates host index args state result final := by
  have named := function?_of_getElem? lowers.functions_nodup found
  have same (fuel : Nat) := lowers.call_eq host fuel _ index decl found named args
  simp only [Evaluates, Contract.Evaluates, same]

/-- A function of an accepted contract comes to the same ends as it is written and in its lowered
form, with the same requests to the host in the same order and the same state of the host behind
them. With as many arguments as there are parameters it is never stuck. -/
theorem lowering_preserves_meaning {source : Syntax.Contract} (accepted : Accepts source)
    {State : Type} (host : Host State) {index : Nat} {decl : Syntax.FunctionDecl}
    (found : source.functions[index]? = some decl) (args : List Word) (state : State)
    (result : Except Halt (Option Word)) (final : State × List Lang.HostCall) :
    (Evaluates source host.recording decl.name.text args (state, []) result final ↔
      (analyze source).contract.Evaluates host.recording index args (state, []) result final) ∧
    (args.length = decl.params.length →
      Evaluates source host.recording decl.name.text args (state, []) result final →
      Lowered.EndFits (fun _ _ => True) (Ty.ofResult decl.result) result) := by
  have lowers := accepted.lowers
  have same := lowers.evaluates_iff host.recording found args (state, []) result final
  refine ⟨same, fun count evaluates => ?_⟩
  obtain ⟨f, numbered, lowersFunction⟩ := getElem?_of_forall₂ lowers.functions.flip found
  have typed := accepted.typed
  have params : args.length = f.paramCount := by
    rw [count, lowersFunction.paramCount_eq]
  have fits := (same.1 evaluates).fits Lowered.any_admits typed
    (Lowered.any_hostKeeps _ host.recording) (Lowered.getElem?_signatures numbered)
    (Lowered.any_argsFit (typed f (List.mem_of_getElem? numbered)) params) trivial
  rwa [lowersFunction.signature_eq] at fits

/-- A contract with a recursive function that has a loop, in whose rounds a variable is declared
anew and hidden by another one of its name, and that adds to a storage variable. -/
def shadowing : Syntax.Contract :=
  let span : Source.Span := ⟨0, 0⟩
  let name (text : String) : Syntax.Name := ⟨text, span⟩
  let var (text : String) : Syntax.Expr := .name text span
  let less (text : String) : Syntax.Expr := .binary .sub (var text) (.int 1 span) span
  let above (text : String) (bound : Nat) : Syntax.Expr :=
    .binary .gt (var text) (.int bound span) span
  let inner : Syntax.Block := .mk
    [.letIn (name "x") none (less "x") span,
      .assign (name "total") (.binary .add (var "total") (var "x") span) span] span
  let round : Syntax.Block := .mk
    [.letIn (name "x") none (var "i") span, .ifThen (above "x" 1) inner none span,
      .assign (name "i") (less "i") span] span
  { name := name "Shadowing"
    storage := [⟨name "total", .i32, span⟩]
    functions :=
      [{ name := name "sum"
         params := [⟨name "n", .i32⟩]
         result := some .i32
         isPublic := true
         isView := false
         body := .mk
           [.letIn (name "i") none (var "n") span, .whileDo (above "i" 0) round span,
             .ifThen (above "n" 0)
               (.mk [.returns (some (.call (name "sum") [less "n"] span)) span] span) none span,
             .returns (some (var "total")) span] span
         span }]
    span }

theorem accepts_shadowing : Accepts shadowing :=
  (accepts_iff shadowing).2 rfl

/-- The lowered form adds the hiding variable to the slot, and gives what the slot holds. -/
theorem lowering_preserves_meaning_shadowing :
    ∃ final, (analyze shadowing).contract.Evaluates (Ledger.host fun _ => none).recording 0 [2]
        (⟨fun _ => 0, []⟩, []) (.ok (some 1)) final ∧
      final.2 = [⟨.storageLoad, [0]⟩, ⟨.storageStore, [0, 1]⟩, ⟨.storageLoad, [0]⟩] := by
  have found : shadowing.functions[0]? = some shadowing.functions[0] := rfl
  refine ⟨_, (lowering_preserves_meaning accepts_shadowing (Ledger.host fun _ => none) found [2]
    ⟨fun _ => 0, []⟩ _ _).1.1 ⟨by simp, 4, rfl⟩, rfl⟩

end Workbench.Check
