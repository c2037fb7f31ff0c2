import Workbench.Proofs.Check.Acceptance
import Workbench.Proofs.Syntax.Rules

/-!
# The check decides the rules

A contract is accepted exactly if it is well formed. What is lowered follows the rules, with the
type that its lowered form has, and what follows the rules can be lowered; the variables that the
rules have in sight are those that the scopes of the check bind, with their types.
-/

namespace Workbench.Check

open Source (Span)
open Lang (Ty ValueType UnaryOp BinaryOp Builtin)
open Syntax (Name Setting Sight ArgsHave StmtsFollow)
open Lowered (Expr Stmt Variable Function Contract)

/-! ### Names -/

/-- What the check of a body depends on. -/
def envOf (S : Setting) : Env :=
  ⟨storageOf S.contract, signaturesOf S.contract, S.result, S.isView⟩

theorem of_findIdx? {α : Type} {l : List α} {p : α → Bool} {index : Nat} {a : α}
    (first : l.findIdx? p = some index) (here : l[index]? = some a) : p a := by
  obtain ⟨lt, named, -⟩ := List.findIdx?_eq_some_iff_getElem.1 first
  rw [List.getElem?_eq_getElem lt] at here
  exact Option.some.inj here ▸ named

/-- Where names are distinct, the first one of a name is the only one. -/
theorem exists_findIdx? {α : Type} {l : List α} {key : α → String} (nodup : (l.map key).Nodup)
    {a : α} (mem : a ∈ l) :
    ∃ index, l.findIdx? (fun b => key b == key a) = some index ∧ l[index]? = some a := by
  have some : (l.findIdx? fun b => key b == key a).isSome := by
    simpa using ⟨a, mem, rfl⟩
  obtain ⟨index, found⟩ := Option.isSome_iff_exists.1 some
  obtain ⟨lt, named, -⟩ := List.findIdx?_eq_some_iff_getElem.1 found
  have same : l[index] = a :=
    List.inj_on_of_nodup_map nodup (List.getElem_mem lt) mem (by simpa using named)
  exact ⟨index, found, by rw [List.getElem?_eq_getElem lt, same]⟩

section

variable {S : Setting}

theorem exists_mem_storage {name : String} {index : Nat} {type : Ty}
    (found : (envOf S).slot? name = some (index, type)) :
    ∃ d ∈ S.contract.storage, d.name.text = name ∧ d.type.ty = type := by
  obtain ⟨first, v, hv, rfl⟩ := Env.slot?_eq_some_iff.1 found
  have named := of_findIdx? first hv
  obtain ⟨d, hd, rfl⟩ := List.mem_map.1 (List.mem_of_getElem? hv)
  exact ⟨d, hd, by simpa [variableOf] using named, rfl⟩

theorem exists_slot? (nodup : (S.contract.storage.map (·.name.text)).Nodup)
    {d : Syntax.StorageDecl} (mem : d ∈ S.contract.storage) :
    ∃ index, (envOf S).slot? d.name.text = some (index, d.type.ty) := by
  obtain ⟨index, first, hd⟩ := exists_findIdx? nodup mem
  refine ⟨index, Env.slot?_eq_some_iff.2 ⟨?_, variableOf d, ?_, rfl⟩⟩
  · rw [envOf, storageOf, List.findIdx?_map]
    exact first
  · rw [envOf, storageOf, List.getElem?_map, hd]
    rfl

theorem exists_mem_functions {name : String} {index : Nat} {sig : Signature}
    (found : (envOf S).function? name = some (index, sig)) :
    ∃ f ∈ S.contract.functions, f.name.text = name ∧ Signature.ofDecl f = sig := by
  obtain ⟨first, hs⟩ := Env.function?_eq_some_iff.1 found
  have named := of_findIdx? first hs
  obtain ⟨f, hf, rfl⟩ := List.mem_map.1 (List.mem_of_getElem? hs)
  exact ⟨f, hf, by simpa [Signature.ofDecl] using named, rfl⟩

theorem exists_function? (nodup : (S.contract.functions.map (·.name.text)).Nodup)
    {f : Syntax.FunctionDecl} (mem : f ∈ S.contract.functions) :
    ∃ index, (envOf S).function? f.name.text = some (index, Signature.ofDecl f) := by
  obtain ⟨index, first, hf⟩ := exists_findIdx? nodup mem
  refine ⟨index, Env.function?_eq_some_iff.2 ⟨?_, ?_⟩⟩
  · rw [envOf, signaturesOf, List.findIdx?_map]
    exact first
  · rw [envOf, signaturesOf, List.getElem?_map, hf]
    rfl

end

theorem ofCallName?_eq_some_iff {name : String} {kind : Builtin} :
    Builtin.ofCallName? name = some kind ↔ kind.callName? = some name := by
  constructor
  · intro found
    simpa [Builtin.ofCallName?] using List.find?_some found
  · intro named
    cases kind <;> cases named <;> rfl

theorem leastMagnitude_eq : leastMagnitude = 2147483648 :=
  rfl

/-- A scope binds the variables in sight to locals of their types. -/
structure Sees (Γ : Sight) (scope : Scope) : Prop where
  nonempty : scope.frames ≠ []
  lookup : ∀ name, Γ.lookup name = (scope.lookup? name).map (·.type)

namespace Sees

variable {Γ : Sight} {scope scope' : Scope}

theorem enter (sees : Sees Γ scope) : Sees Γ scope.enter :=
  ⟨List.cons_ne_nil _ _, sees.lookup⟩

theorem declare (sees : Sees Γ scope) (name : String) (type : Ty) :
    Sees ((name, type) :: Γ) (scope.declare name type) := by
  constructor
  · obtain ⟨frame, outer, frames⟩ := List.exists_cons_of_ne_nil sees.nonempty
    simp [Scope.declare, frames]
  · intro other
    rw [lookup_cons, Scope.lookup?_declare sees.nonempty, sees.lookup]
    split <;> rfl

theorem of_frames_eq (sees : Sees Γ scope) (frames : scope'.frames = scope.frames) :
    Sees Γ scope' := by
  refine ⟨frames ▸ sees.nonempty, fun name => ?_⟩
  rw [sees.lookup, Scope.lookup?, Scope.lookup?, frames]

theorem bound (sees : Sees Γ scope) {name : String} {type : Ty}
    (found : Γ.lookup name = some type) : ∃ b, scope.lookup? name = some b ∧ b.type = type :=
  Option.map_eq_some_iff.1 ((sees.lookup name).symm.trans found)

theorem unbound (sees : Sees Γ scope) {name : String} :
    Γ.lookup name = none ↔ scope.lookup? name = none := by
  rw [sees.lookup, Option.map_eq_none_iff]

end Sees

/-! ### What is lowered follows the rules -/

section

variable {S : Setting} {Γ : Sight} {scope : Scope}

theorem binary_has {l r : Syntax.Expr} {left right : Ty} (hl : l.Has S Γ left)
    (hr : r.Has S Γ right) {op : BinaryOp} (operands : Lowered.Operands op left right)
    (span : Span) : Syntax.Expr.Has S Γ (.binary op l r span) (Lowered.binaryType op) := by
  cases op
  case eq | ne =>
    obtain ⟨rfl, has⟩ := operands
    exact .equality (by simp) (by rintro rfl; nomatch has) hl hr
  case and | or =>
    obtain ⟨rfl, rfl⟩ := operands
    exact .logic (by simp) hl hr
  case lt | le | gt | ge =>
    obtain ⟨rfl, rfl⟩ := operands
    exact .order (by simp) hl hr
  all_goals
    obtain ⟨rfl, rfl⟩ := operands
    exact .arithmetic (by simp) hl hr

mutual

theorem ExprLowers.has (sees : Sees Γ scope) : ∀ {e : Syntax.Expr} {e' : Expr},
    ExprLowers (envOf S) scope e e' → e.Has S Γ e'.type
  | _, _, .int small => .int (leastMagnitude_eq ▸ small)
  | _, _, .bool => .bool
  | _, _, .var found => .var (by rw [sees.lookup, found]; rfl)
  | _, _, .slot hidden found => by
      obtain ⟨d, hd, rfl, rfl⟩ := exists_mem_storage found
      exact .storage (sees.unbound.2 hidden) hd
  | _, _, .least => .least
  | _, _, @ExprLowers.unary _ _ op _ _ _ lowers type => by
      have has := lowers.has sees
      rw [type] at has
      cases op with
      | neg => exact .neg has
      | not => exact .not has
  | _, _, .binary left right operands => binary_has (left.has sees) (right.has sees) operands _
  | _, _, .call found view lower => by
      obtain ⟨f, hf, named, rfl⟩ := exists_mem_functions found
      exact .call hf named view (lower.have sees)
  | _, _, .builtin _ found view lower =>
      .builtin (ofCallName?_eq_some_iff.1 found) view (lower.have sees)

theorem ArgsLower.have (sees : Sees Γ scope) : ∀ {args : List Syntax.Expr} {es : List Expr}
    {types : List Ty}, ArgsLower (envOf S) scope args es types → ArgsHave S Γ args types
  | _, _, _, .nil => .nil
  | _, _, _, .cons first others => .cons (first.has sees) (others.have sees)

end

end

mutual

theorem StmtLowers.follows {S : Setting} : ∀ {scope : Scope} {s : Syntax.Stmt} {s' : Stmt}
    {scope' : Scope}, StmtLowers (envOf S) scope s s' scope' → ∀ {Γ : Sight}, Sees Γ scope →
    ∃ Γ', s.Follows S Γ Γ' ∧ Sees Γ' scope'
  | _, _, _, _, .letIn fresh lowers fits notUnit, Γ, sees => by
      refine ⟨_, .letIn (fun d hd same => fresh ?_) (lowers.has sees) fits notUnit,
        sees.declare _ _⟩
      simpa [envOf, storageOf, variableOf] using ⟨d, hd, same⟩
  | _, _, _, _, .set found lowers type, Γ, sees =>
      ⟨Γ, .assign (by rw [sees.lookup, found]; rfl) (type ▸ lowers.has sees), sees⟩
  | _, _, _, _, .store hidden found view lowers type, Γ, sees => by
      obtain ⟨d, hd, named, rfl⟩ := exists_mem_storage found
      exact ⟨Γ, .store (sees.unbound.2 hidden) hd named view (type ▸ lowers.has sees), sees⟩
  | _, _, _, _, .ifThen lowers type yes, Γ, sees =>
      ⟨Γ, .ifThen (type ▸ lowers.has sees) (yes.follows sees), sees.of_frames_eq yes.frames_eq⟩
  | _, _, _, _, .ifElse lowers type yes no, Γ, sees =>
      have seesNo := sees.of_frames_eq yes.frames_eq
      ⟨Γ, .ifElse (type ▸ lowers.has sees) (yes.follows sees) (no.follows seesNo),
        seesNo.of_frames_eq no.frames_eq⟩
  | _, _, _, _, .whileDo lowers type body, Γ, sees =>
      ⟨Γ, .whileDo (type ▸ lowers.has sees) (body.follows sees),
        sees.of_frames_eq body.frames_eq⟩
  | _, _, _, _, .returns unit, Γ, sees => ⟨Γ, .returns unit, sees⟩
  | _, _, _, _, .returnsValue lowers notUnit type, Γ, sees =>
      have type : _ = S.result := type
      ⟨Γ, .returnsValue notUnit (type ▸ lowers.has sees), sees⟩
  | _, _, _, _, .require lowers type, Γ, sees => ⟨Γ, .require (type ▸ lowers.has sees), sees⟩
  | _, _, _, _, .eval lowers, Γ, sees => ⟨Γ, .eval (lowers.has sees), sees⟩

theorem BlockLowers.follows {S : Setting} : ∀ {scope : Scope} {b : Syntax.Block}
    {body : List Stmt} {scope' : Scope}, BlockLowers (envOf S) scope b body scope' →
    ∀ {Γ : Sight}, Sees Γ scope → b.Follows S Γ
  | _, _, _, _, .mk lower, _, sees =>
      have ⟨_, follow, _⟩ := lower.follow sees.enter
      .mk follow

theorem StmtsLower.follow {S : Setting} : ∀ {scope : Scope} {stmts : List Syntax.Stmt}
    {body : List Stmt} {scope' : Scope}, StmtsLower (envOf S) scope stmts body scope' →
    ∀ {Γ : Sight}, Sees Γ scope → ∃ Γ', StmtsFollow S Γ stmts Γ' ∧ Sees Γ' scope'
  | _, _, _, _, .nil, Γ, sees => ⟨Γ, .nil, sees⟩
  | _, _, _, _, .cons first others, _, sees =>
      have ⟨_, follows, sees'⟩ := first.follows sees
      have ⟨Γ'', follow, sees''⟩ := others.follow sees'
      ⟨Γ'', .cons follows follow, sees''⟩

end

/-! ### What follows the rules is lowered -/

theorem noFunction_of_builtin {S : Setting} (named : S.contract.Named) {name : String}
    {kind : Builtin} (builtin : kind.callName? = some name) : (envOf S).function? name = none := by
  rw [Env.function?_eq_none_iff]
  intro s hs
  obtain ⟨f, hf, rfl⟩ := List.mem_map.1 hs
  rintro rfl
  exact named.noBuiltin f hf kind builtin

section

variable {S : Setting} {Γ : Sight} {scope : Scope}

theorem operands_of_arithmetic {op : BinaryOp} (h : op ∈ [.add, .sub, .mul, .div, .rem]) :
    Lowered.Operands op .i32 .i32 ∧ Lowered.binaryType op = .i32 := by
  cases op <;> first | exact ⟨⟨rfl, rfl⟩, rfl⟩ | exact absurd h (by decide)

theorem operands_of_order {op : BinaryOp} (h : op ∈ [.lt, .le, .gt, .ge]) :
    Lowered.Operands op .i32 .i32 ∧ Lowered.binaryType op = .bool := by
  cases op <;> first | exact ⟨⟨rfl, rfl⟩, rfl⟩ | exact absurd h (by decide)

theorem operands_of_equality {op : BinaryOp} {type : Ty} (h : op ∈ [.eq, .ne])
    (notUnit : type ≠ .unit) :
    Lowered.Operands op type type ∧ Lowered.binaryType op = .bool := by
  cases op <;> first
    | exact ⟨⟨rfl, hasValue_of_ne_unit notUnit⟩, rfl⟩
    | exact absurd h (by decide)

theorem operands_of_logic {op : BinaryOp} (h : op ∈ [.and, .or]) :
    Lowered.Operands op .bool .bool ∧ Lowered.binaryType op = .bool := by
  cases op <;> first | exact ⟨⟨rfl, rfl⟩, rfl⟩ | exact absurd h (by decide)

theorem exists_binary {l r : Syntax.Expr} {left right type : Ty}
    (hl : ∃ l', ExprLowers (envOf S) scope l l' ∧ l'.type = left)
    (hr : ∃ r', ExprLowers (envOf S) scope r r' ∧ r'.type = right) {op : BinaryOp}
    (operands : Lowered.Operands op left right ∧ Lowered.binaryType op = type) (span : Span) :
    ∃ e', ExprLowers (envOf S) scope (.binary op l r span) e' ∧ e'.type = type := by
  obtain ⟨l', hl, rfl⟩ := hl
  obtain ⟨r', hr, rfl⟩ := hr
  exact ⟨_, .binary hl hr operands.1, operands.2⟩

mutual

theorem exists_exprLowers (named : S.contract.Named) (sees : Sees Γ scope) :
    ∀ {e : Syntax.Expr} {type : Ty}, e.Has S Γ type →
    ∃ e', ExprLowers (envOf S) scope e e' ∧ e'.type = type
  | _, _, .int small => ⟨_, .int (leastMagnitude_eq ▸ small), rfl⟩
  | _, _, .bool => ⟨_, .bool, rfl⟩
  | _, _, .var found => by
      obtain ⟨b, hb, rfl⟩ := sees.bound found
      exact ⟨_, .var hb, rfl⟩
  | _, _, .storage hidden hd => by
      obtain ⟨index, found⟩ := exists_slot? named.storage_nodup hd
      exact ⟨_, .slot (sees.unbound.1 hidden) found, rfl⟩
  | _, _, .least => ⟨_, .least, rfl⟩
  | _, _, .neg has => by
      obtain ⟨e', lowers, type⟩ := exists_exprLowers named sees has
      exact ⟨_, .unary lowers type, rfl⟩
  | _, _, .not has => by
      obtain ⟨e', lowers, type⟩ := exists_exprLowers named sees has
      exact ⟨_, .unary lowers type, rfl⟩
  | _, _, .arithmetic op left right =>
      exists_binary (exists_exprLowers named sees left) (exists_exprLowers named sees right)
        (operands_of_arithmetic op) _
  | _, _, .order op left right =>
      exists_binary (exists_exprLowers named sees left) (exists_exprLowers named sees right)
        (operands_of_order op) _
  | _, _, .equality op notUnit left right =>
      exists_binary (exists_exprLowers named sees left) (exists_exprLowers named sees right)
        (operands_of_equality op notUnit) _
  | _, _, .logic op left right =>
      exists_binary (exists_exprLowers named sees left) (exists_exprLowers named sees right)
        (operands_of_logic op) _
  | _, _, .call hf callee view args => by
      obtain ⟨index, found⟩ := exists_function? named.functions_nodup hf
      obtain ⟨es, lower⟩ := exists_argsLower named sees args
      rw [callee] at found
      exact ⟨_, .call found view lower, rfl⟩
  | _, _, .builtin builtin view args => by
      obtain ⟨es, lower⟩ := exists_argsLower named sees args
      have found := ofCallName?_eq_some_iff.2 builtin
      exact ⟨_, .builtin (noFunction_of_builtin named builtin) found view lower, rfl⟩

theorem exists_argsLower (named : S.contract.Named) (sees : Sees Γ scope) :
    ∀ {args : List Syntax.Expr} {types : List Ty}, ArgsHave S Γ args types →
    ∃ es, ArgsLower (envOf S) scope args es types
  | _, _, .nil => ⟨[], .nil⟩
  | _, _, .cons first others => by
      obtain ⟨e, lowers, rfl⟩ := exists_exprLowers named sees first
      obtain ⟨es, lower⟩ := exists_argsLower named sees others
      exact ⟨e :: es, .cons lowers lower⟩

end

end

theorem fresh_of_ne {S : Setting} {text : String}
    (fresh : ∀ d ∈ S.contract.storage, d.name.text ≠ text) :
    text ∉ (envOf S).storage.map (·.name) := by
  simpa [envOf, storageOf, variableOf] using fresh

mutual

theorem exists_stmtLowers {S : Setting} (named : S.contract.Named) : ∀ {Γ : Sight}
    {s : Syntax.Stmt} {Γ' : Sight}, s.Follows S Γ Γ' → ∀ {scope : Scope}, Sees Γ scope →
    ∃ s' scope', StmtLowers (envOf S) scope s s' scope' ∧ Sees Γ' scope'
  | _, _, _, .letIn fresh has fits notUnit, scope, sees => by
      obtain ⟨e, lowers, rfl⟩ := exists_exprLowers named sees has
      exact ⟨_, _, .letIn (fresh_of_ne fresh) lowers fits notUnit, sees.declare _ _⟩
  | _, _, _, .assign found has, scope, sees => by
      obtain ⟨b, hb, rfl⟩ := sees.bound found
      obtain ⟨e, lowers, type⟩ := exists_exprLowers named sees has
      exact ⟨_, _, .set hb lowers type, sees⟩
  | _, _, _, .store hidden hd target view has, scope, sees => by
      obtain ⟨index, found⟩ := exists_slot? named.storage_nodup hd
      obtain ⟨e, lowers, type⟩ := exists_exprLowers named sees has
      exact ⟨_, _, .store (sees.unbound.1 hidden) (target ▸ found) view lowers type, sees⟩
  | _, _, _, .ifThen has yes, scope, sees => by
      obtain ⟨c, lowers, type⟩ := exists_exprLowers named sees has
      obtain ⟨onYes, scope', lowersYes⟩ := exists_blockLowers named yes sees
      exact ⟨_, _, .ifThen lowers type lowersYes, sees.of_frames_eq lowersYes.frames_eq⟩
  | _, _, _, .ifElse has yes no, scope, sees => by
      obtain ⟨c, lowers, type⟩ := exists_exprLowers named sees has
      obtain ⟨onYes, scope', lowersYes⟩ := exists_blockLowers named yes sees
      have seesNo := sees.of_frames_eq lowersYes.frames_eq
      obtain ⟨onNo, scope'', lowersNo⟩ := exists_blockLowers named no seesNo
      exact ⟨_, _, .ifElse lowers type lowersYes lowersNo, seesNo.of_frames_eq lowersNo.frames_eq⟩
  | _, _, _, .whileDo has body, scope, sees => by
      obtain ⟨c, lowers, type⟩ := exists_exprLowers named sees has
      obtain ⟨round, scope', lowersBody⟩ := exists_blockLowers named body sees
      exact ⟨_, _, .whileDo lowers type lowersBody, sees.of_frames_eq lowersBody.frames_eq⟩
  | _, _, _, .returns unit, _, sees => ⟨_, _, .returns unit, sees⟩
  | _, _, _, .returnsValue notUnit has, scope, sees => by
      obtain ⟨e, lowers, type⟩ := exists_exprLowers named sees has
      exact ⟨_, _, .returnsValue lowers notUnit type, sees⟩
  | _, _, _, .require has, scope, sees => by
      obtain ⟨c, lowers, type⟩ := exists_exprLowers named sees has
      exact ⟨_, _, .require lowers type, sees⟩
  | _, _, _, .eval has, scope, sees => by
      obtain ⟨e, lowers, -⟩ := exists_exprLowers named sees has
      exact ⟨_, _, .eval lowers, sees⟩

theorem exists_blockLowers {S : Setting} (named : S.contract.Named) : ∀ {Γ : Sight}
    {b : Syntax.Block}, b.Follows S Γ → ∀ {scope : Scope}, Sees Γ scope →
    ∃ body scope', BlockLowers (envOf S) scope b body scope'
  | _, _, .mk follow, _, sees =>
      have ⟨_, _, lower, _⟩ := exists_stmtsLower named follow sees.enter
      ⟨_, _, .mk lower⟩

theorem exists_stmtsLower {S : Setting} (named : S.contract.Named) : ∀ {Γ : Sight}
    {stmts : List Syntax.Stmt} {Γ' : Sight}, StmtsFollow S Γ stmts Γ' →
    ∀ {scope : Scope}, Sees Γ scope →
    ∃ body scope', StmtsLower (envOf S) scope stmts body scope' ∧ Sees Γ' scope'
  | _, _, _, .nil, scope, sees => ⟨[], scope, .nil, sees⟩
  | _, _, _, .cons follows follow, _, sees =>
      have ⟨s, _, lowers, sees'⟩ := exists_stmtLowers named follows sees
      have ⟨rest, scope'', lower, sees''⟩ := exists_stmtsLower named follow sees'
      ⟨s :: rest, scope'', .cons lowers lower, sees''⟩

end

/-! ### Control -/

section

variable {env : Env}

theorem ExprLowers.isTrue_iff {scope : Scope} {e : Syntax.Expr} {e' : Expr}
    (lowers : ExprLowers env scope e e') : e'.isTrue ↔ ∃ span, e = .bool true span := by
  cases lowers with
  | @bool value => cases value <;> simp [Expr.isTrue]
  | _ => simp [Expr.isTrue]

mutual

/-- Lowering keeps what control never passes beyond. -/
theorem StmtLowers.diverges_iff : ∀ {scope : Scope} {s : Syntax.Stmt} {s' : Stmt} {scope' : Scope},
    StmtLowers env scope s s' scope' → (s'.diverges ↔ s.Diverges)
  | _, _, _, _, .returns _ | _, _, _, _, .returnsValue _ _ _ => iff_of_true rfl .returns
  | _, _, _, _, .ifElse _ _ yes no => by
      rw [Stmt.diverges, Bool.and_eq_true, yes.diverges_iff, no.diverges_iff]
      exact ⟨fun h => .ifElse h.1 h.2, fun h => by cases h with | ifElse hy hn => exact ⟨hy, hn⟩⟩
  | _, _, _, _, .whileDo lowers _ _ => by
      rw [Stmt.diverges, lowers.isTrue_iff]
      constructor
      · rintro ⟨span, rfl⟩
        exact .whileTrue
      · rintro ⟨⟩
        exact ⟨_, rfl⟩
  | _, _, _, _, .ifThen _ _ _ => by simp [Stmt.diverges, Stmt.anyDiverges]; nofun
  | _, _, _, _, .letIn .. | _, _, _, _, .set .. | _, _, _, _, .store ..
  | _, _, _, _, .require .. | _, _, _, _, .eval _ => iff_of_false (by simp [Stmt.diverges]) nofun

theorem BlockLowers.diverges_iff : ∀ {scope : Scope} {b : Syntax.Block} {body : List Stmt}
    {scope' : Scope}, BlockLowers env scope b body scope' → (Stmt.anyDiverges body ↔ b.Diverges)
  | _, _, _, _, .mk lower => by
      rw [lower.diverges_iff]
      exact ⟨fun ⟨_, hs, h⟩ => .mk hs h, fun h => by cases h with | mk hs h => exact ⟨_, hs, h⟩⟩

theorem StmtsLower.diverges_iff : ∀ {scope : Scope} {stmts : List Syntax.Stmt} {body : List Stmt}
    {scope' : Scope}, StmtsLower env scope stmts body scope' →
    (Stmt.anyDiverges body ↔ ∃ s ∈ stmts, s.Diverges)
  | _, _, _, _, .nil => by simp [Stmt.anyDiverges]
  | _, _, _, _, .cons first others => by
      rw [Stmt.anyDiverges, Bool.or_eq_true, first.diverges_iff, others.diverges_iff]
      simp

end

end

/-! ### Declarations -/

/-- The variables in sight behind parameters. -/
def sightOf (params : List Syntax.Param) (Γ : Sight) : Sight :=
  (params.map fun p => (p.name.text, p.type.ty)).reverse ++ Γ

theorem sightOf_cons (p : Syntax.Param) (rest : List Syntax.Param) (Γ : Sight) :
    sightOf (p :: rest) Γ = sightOf rest ((p.name.text, p.type.ty) :: Γ) := by
  simp [sightOf]

theorem ParamsLower.sees {storage : List Variable} {scope scope' : Scope}
    {params : List Syntax.Param} (lower : ParamsLower storage scope params scope') {Γ : Sight}
    (sees : Sees Γ scope) : Sees (sightOf params Γ) scope' := by
  induction lower generalizing Γ with
  | nil => exact sees
  | cons _ _ _ ih => exact sightOf_cons .. ▸ ih (sees.declare _ _)

theorem ParamsLower.fresh {storage : List Variable} {scope scope' : Scope}
    {params : List Syntax.Param} (lower : ParamsLower storage scope params scope') :
    ∀ p ∈ params, p.name.text ∉ storage.map (·.name) := by
  induction lower with
  | nil => nofun
  | cons _ fresh _ ih => exact List.forall_mem_cons.2 ⟨fresh, ih⟩

/-- Parameters have names that differ from those in sight and from each other. -/
theorem ParamsLower.nodup {storage : List Variable} {scope scope' : Scope}
    {params : List Syntax.Param} (lower : ParamsLower storage scope params scope') {Γ : Sight}
    (sees : Sees Γ scope) : (params.map (·.name.text)).Nodup ∧
      ∀ p ∈ params, Γ.lookup p.name.text = none := by
  induction lower generalizing Γ with
  | nil => exact ⟨List.nodup_nil, nofun⟩
  | @cons _ _ p rest new _ _ ih =>
      obtain ⟨nodup, others⟩ := ih (sees.declare _ _)
      have other : ∀ q ∈ rest, p.name.text ≠ q.name.text ∧ Γ.lookup q.name.text = none := by
        intro q hq
        have missing := others q hq
        rw [lookup_cons] at missing
        split at missing
        · nomatch missing
        · exact ⟨‹_›, missing⟩
      refine ⟨List.nodup_cons.2 ⟨fun twice => ?_, nodup⟩,
        List.forall_mem_cons.2 ⟨sees.unbound.2 new, fun q hq => (other q hq).2⟩⟩
      obtain ⟨q, hq, same⟩ := List.mem_map.1 twice
      exact (other q hq).1 same.symm

theorem exists_paramsLower {storage : List Variable} {params : List Syntax.Param}
    (nodup : (params.map (·.name.text)).Nodup)
    (fresh : ∀ p ∈ params, p.name.text ∉ storage.map (·.name)) {Γ : Sight} {scope : Scope}
    (sees : Sees Γ scope) (missing : ∀ p ∈ params, Γ.lookup p.name.text = none) :
    ∃ scope', ParamsLower storage scope params scope' := by
  induction params generalizing Γ scope with
  | nil => exact ⟨scope, .nil⟩
  | cons p rest ih =>
      obtain ⟨once, nodup⟩ := List.nodup_cons.1 nodup
      obtain ⟨freshHere, fresh⟩ := List.forall_mem_cons.1 fresh
      obtain ⟨new, missing⟩ := List.forall_mem_cons.1 missing
      obtain ⟨scope', lower⟩ := ih nodup fresh (sees.declare p.name.text p.type.ty) fun q hq => by
        rw [lookup_cons, if_neg, missing q hq]
        exact fun same => once (List.mem_map.2 ⟨q, hq, same.symm⟩)
      exact ⟨scope', .cons (sees.unbound.1 new) freshHere lower⟩

theorem sees_nil : Sees [] ⟨#[], [[]]⟩ :=
  ⟨List.cons_ne_nil _ _, fun _ => rfl⟩

/-- The rules that hold in a function. -/
abbrev settingOf (source : Syntax.Contract) (decl : Syntax.FunctionDecl) : Setting :=
  ⟨source, Ty.ofResult decl.result, decl.isView⟩

theorem ofResult_ne_unit (result : Option ValueType) :
    Ty.ofResult result ≠ .unit ↔ result.isSome := by
  cases result with
  | none => decide
  | some type => cases type <;> decide

theorem FunctionLowers.wellFormed {source : Syntax.Contract} {decl : Syntax.FunctionDecl}
    {f : Function} (lowers : FunctionLowers (storageOf source) (signaturesOf source) decl f) :
    decl.WellFormed source := by
  obtain ⟨params, block, returns⟩ := lowers
  refine ⟨(params.nodup sees_nil).1, fun p hp d hd same => params.fresh p hp ?_,
    BlockLowers.follows (S := settingOf source decl) block ?_, fun some => ?_⟩
  · simpa [storageOf, variableOf] using ⟨d, hd, same⟩
  · simpa [sightOf, Syntax.FunctionDecl.sight] using params.sees sees_nil
  · exact block.diverges_iff.1 (returns ((ofResult_ne_unit _).2 some))

theorem exists_functionLowers {source : Syntax.Contract} (named : source.Named)
    {decl : Syntax.FunctionDecl} (wellFormed : decl.WellFormed source) :
    ∃ f, FunctionLowers (storageOf source) (signaturesOf source) decl f := by
  obtain ⟨nodup, fresh, body, returns⟩ := wellFormed
  obtain ⟨scope, params⟩ := exists_paramsLower nodup
    (fun p hp => fresh_of_ne (S := settingOf source decl) (fresh p hp)) sees_nil fun _ _ => rfl
  have sees : Sees decl.sight scope := by
    simpa [sightOf, Syntax.FunctionDecl.sight] using params.sees sees_nil
  obtain ⟨onBody, inner, block⟩ :=
    exists_blockLowers (S := settingOf source decl) named body sees
  exact ⟨_, .mk params block fun notUnit =>
    block.diverges_iff.2 (returns ((ofResult_ne_unit _).1 notUnit))⟩

theorem exists_functionsLower {source : Syntax.Contract} (named : source.Named)
    (decls : List Syntax.FunctionDecl) (wellFormed : ∀ f ∈ decls, f.WellFormed source) :
    ∃ fs, List.Forall₂ (FunctionLowers (storageOf source) (signaturesOf source)) decls fs := by
  induction decls with
  | nil => exact ⟨[], .nil⟩
  | cons decl rest ih =>
      obtain ⟨first, others⟩ := List.forall_mem_cons.1 wellFormed
      obtain ⟨f, lowers⟩ := exists_functionLowers named first
      obtain ⟨fs, lower⟩ := ih others
      exact ⟨f :: fs, .cons lowers lower⟩

theorem noBuiltin_iff {name : String} :
    (∀ kind, Builtin.callName? kind ≠ some name) ↔ Builtin.ofCallName? name = none := by
  rw [Option.eq_none_iff_forall_ne_some]
  exact forall_congr' fun kind => not_congr ofCallName?_eq_some_iff.symm

theorem ContractLowers.wellFormed {source : Syntax.Contract} {c : Contract}
    (lowers : ContractLowers source c) : source.WellFormed where
  storage_nodup := lowers.storage_nodup
  functions_nodup := lowers.functions_nodup
  noBuiltin f hf := noBuiltin_iff.2 (lowers.noBuiltin f hf)
  functions f hf := by
    obtain ⟨index, found⟩ := List.mem_iff_getElem?.1 hf
    obtain ⟨_, -, lowersFunction⟩ := getElem?_of_forall₂ lowers.functions.flip found
    exact FunctionLowers.wellFormed lowersFunction

theorem exists_contractLowers {source : Syntax.Contract} (wellFormed : source.WellFormed) :
    ∃ c, ContractLowers source c := by
  have named := wellFormed.toNamed
  obtain ⟨fs, lower⟩ := exists_functionsLower named source.functions wellFormed.functions
  exact ⟨⟨source.name.text, storageOf source, fs, source.span⟩, named.storage_nodup,
    named.functions_nodup, fun f hf => noBuiltin_iff.1 (named.noBuiltin f hf), lower, rfl, rfl, rfl⟩

/-- The check reports no error about a contract exactly if it is well formed. -/
theorem accepts_iff_wellFormed (source : Syntax.Contract) : Accepts source ↔ source.WellFormed := by
  constructor
  · exact fun accepted => accepted.lowers.wellFormed
  · intro wellFormed
    obtain ⟨c, lowers⟩ := exists_contractLowers wellFormed
    rw [accepts_iff, checkContract_eq_pure_iff.2 lowers]
    rfl

end Workbench.Check
