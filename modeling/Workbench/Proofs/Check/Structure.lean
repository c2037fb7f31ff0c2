import Workbench.Proofs.Check.Acceptance
import Workbench.Proofs.Lowered.Nodes

/-!
# The lowered form is sound even of faulty contracts

Later analyses look at what the check has lowered whether or not it has met problems. Statements may
be missing from it, and a wrong value may be assigned or returned, but everything that is there
refers to declarations that exist and every operand has a type that its operator takes. None of the
rules of accepted contracts can be used for that, since they leave out how problems are got over;
the check itself is followed here, and what is said of a check is said of its value alone.
-/

namespace Workbench.Lowered

/-! ### Sound nodes -/

/-- A node refers to what there is, with the types that it carries, and its parts have the types
that it asks for. -/
def Node.Sound (Γ : Context) : Node → Prop
  | .expr (.int ..) | .expr (.bool ..) => True
  | .expr (.var index type _) => Γ.locals[index]? = some type
  | .expr (.slot index type _) => Γ.storage[index]? = some type
  | .expr (.unary op operand _) => operand.type = unaryType op
  | .expr (.binary op lhs rhs _) => Operands op lhs.type rhs.type
  | .expr (.shl value amount _) => value.type = .i32 ∧ amount < 32
  | .expr (.call function args result _) =>
      Γ.signatures[function]? = some ⟨args.map (·.type), result⟩
  | .expr (.builtin kind args _) => kind.callName?.isSome ∧ args.map (·.type) = kind.params
  | .stmt (.letIn index value _) => Γ.locals[index]? = some value.type
  | .stmt (.set index _ _) => index < Γ.locals.length
  | .stmt (.store slot _ _) => slot < Γ.storage.length
  | .stmt (.ifThen cond ..) | .stmt (.whileDo cond ..) | .stmt (.require cond _) =>
      cond.type = .bool
  | .stmt (.returns ..) | .stmt (.eval ..) => True

/-- An expression and everything below it are sound. -/
def Expr.Sound (Γ : Context) (e : Expr) : Prop :=
  (Node.expr e).Everywhere (Node.Sound Γ)

/-- A statement and everything below it are sound. -/
def Stmt.Sound (Γ : Context) (s : Stmt) : Prop :=
  (Node.stmt s).Everywhere (Node.Sound Γ)

section

variable {Γ : Context}

theorem Expr.sound_iff {e : Expr} :
    e.Sound Γ ↔ (Node.expr e).Sound Γ ∧ ∀ a ∈ e.parts, a.Sound Γ := by
  rw [Sound, Node.everywhere_iff, Node.parts, List.forall_mem_map]
  rfl

theorem Stmt.sound_iff {s : Stmt} :
    s.Sound Γ ↔ (Node.stmt s).Sound Γ ∧ ∀ part ∈ s.parts, part.Everywhere (Node.Sound Γ) :=
  Node.everywhere_iff

end

/-- The declarations of a contract have their own names and places, and all nodes of its functions
are sound. -/
structure Contract.Sound (c : Contract) : Prop where
  storage : (c.storage.map (·.name)).Nodup
  paramCount_le : ∀ f ∈ c.functions, f.paramCount ≤ f.locals.length
  nodes : ∀ f ∈ c.functions, ∀ path n, f.at? path = some n → n.Sound (c.context f)

end Workbench.Lowered

namespace Workbench.Check

open Source (Span)
open Lang (Ty ValueType BinaryOp Builtin)
open Syntax (Name)
open Lowered (Expr Stmt Node Variable Function Contract Context)

/-! ### Values of checks -/

/-- The value of a check has a property, whatever problems it has met. -/
def Checked.Always {α : Type} (P : α → Prop) (x : Checked α) : Prop :=
  P x.value

namespace Checked.Always

variable {α β : Type} {P : α → Prop} {Q : β → Prop}

theorem pure {a : α} (h : P a) : Always P (pure a) := h

theorem bind {x : Checked α} {f : α → Checked β} (hx : Always P x)
    (hf : ∀ a, P a → Always Q (f a)) : Always Q (x >>= f) :=
  hf x.value hx

/-- Nothing has to be known of the first check. -/
theorem after {x : Checked α} {f : α → Checked β} (hf : ∀ a, Always Q (f a)) :
    Always Q (x >>= f) :=
  hf x.value

end Checked.Always

open Checked (Always)

theorem expectType_always (e : Expr) (expected : Ty) :
    Always (fun ok => ok = true → e.type = expected) (expectType e expected) :=
  eq_of_beq

theorem checkOperands_always (op : BinaryOp) (left right : Ty) (span : Span) :
    Always (fun ok => ok = true → Lowered.Operands op left right)
      (checkOperands op left right span) := by
  unfold Always checkOperands
  cases op
  case eq | ne =>
    intro ok
    simp only [operandType?, Checked.value_bind, Checked.value_pure, Bool.and_eq_true, beq_iff_eq,
      bne_iff_ne] at ok
    exact ⟨ok.1, hasValue_of_ne_unit ok.2⟩
  all_goals
    intro ok
    simp only [operandType?, Checked.value_bind, Checked.value_pure, Bool.and_eq_true,
      beq_iff_eq] at ok
    exact ok

/-! ### Expressions -/

/-- Every name in scope is bound to a local with the type of the binding, which may have no
value. -/
def Named (Γ : Context) (frames : List (List Binding)) : Prop :=
  ∀ frame ∈ frames, ∀ b ∈ frame, Γ.locals[b.index]? = some b.type

theorem Named.lookup {Γ : Context} {scope : Scope} (named : Named Γ scope.frames) {name : String}
    {b : Binding} (h : scope.lookup? name = some b) : Γ.locals[b.index]? = some b.type := by
  obtain ⟨frame, hframe, found⟩ := List.exists_of_findSome?_eq_some h
  exact named frame hframe b (List.mem_of_find?_eq_some found)

section

variable {Γ : Context} {env : Env} {scope : Scope}

theorem Expr.sound_of_leaf {e : Expr} (leaf : e.parts = []) (sound : (Node.expr e).Sound Γ) :
    e.Sound Γ :=
  Lowered.Expr.sound_iff.2 ⟨sound, by simp [leaf]⟩

theorem checkName_always (fits : Fits Γ env) (named : Named Γ scope.frames) (name : String)
    (span : Span) : Always (fun e? => ∀ e ∈ e?, e.Sound Γ) (checkName env scope name span) := by
  unfold Always checkName
  cases hb : scope.lookup? name with
  | some b =>
      rintro e ⟨⟩
      exact Expr.sound_of_leaf rfl (named.lookup hb)
  | none =>
      cases hs : env.slot? name with
      | some found =>
          rintro e ⟨⟩
          exact Expr.sound_of_leaf rfl (fits.slot hs).1
      | none => exact fun _ h => nomatch h

theorem checkArguments_always {args : List (Option Expr)}
    (sound : ∀ a ∈ args, ∀ e ∈ a, e.Sound Γ) {types : List Ty}
    (length : types.length = args.length) :
    Always (fun es? => ∀ es ∈ es?, es.map (·.type) = types ∧ ∀ e ∈ es, e.Sound Γ)
      (checkArguments args types) := by
  induction args generalizing types with
  | nil =>
      obtain rfl := List.length_eq_zero_iff.1 length
      rintro es ⟨⟩
      exact ⟨rfl, by simp⟩
  | cons arg args ih =>
      obtain ⟨first, others⟩ := List.forall_mem_cons.1 sound
      cases types with
      | nil => cases length
      | cons expected types =>
          have rest := ih others (Nat.succ.inj length)
          cases arg with
          | none =>
              rw [checkArguments]
              exact Always.after fun _ => Always.pure (by simp)
          | some e =>
              rw [checkArguments]
              refine (expectType_always e expected).bind fun ok same => rest.bind fun es? rest => ?_
              refine Always.pure fun es made => ?_
              cases ok with
              | false => cases made
              | true =>
                  obtain ⟨es, found, rfl⟩ := Option.map_eq_some_iff.1 made
                  obtain ⟨types, sound⟩ := rest es found
                  exact ⟨by rw [List.map_cons, same rfl, types],
                    List.forall_mem_cons.2 ⟨first e rfl, sound⟩⟩

theorem checkCall_always (fits : Fits Γ env) {args : List (Option Expr)}
    (sound : ∀ a ∈ args, ∀ e ∈ a, e.Sound Γ) (callee : Name) (span : Span) :
    Always (fun e? => ∀ e ∈ e?, e.Sound Γ) (checkCall env callee args span) := by
  have finish {params : List Ty} {build : List Expr → Expr}
      (builds : ∀ es, es.map (·.type) = params → (∀ e ∈ es, e.Sound Γ) → (build es).Sound Γ) :
      Always (fun e? => ∀ e ∈ e?, e.Sound Γ)
        (if params.length = args.length then do
          return (← checkArguments args params).map build
        else do
          Checked.report (.argumentCount callee.text params.length args.length) span
          return none) := by
    split
    case isTrue length =>
      refine (checkArguments_always sound length).bind fun es? found => Always.pure ?_
      rintro e made
      obtain ⟨es, there, rfl⟩ := Option.map_eq_some_iff.1 made
      exact builds es (found es there).1 (found es there).2
    case isFalse => exact Always.after fun _ => fun _ h => nomatch h
  unfold checkCall
  cases hf : env.function? callee.text with
  | some found =>
      obtain ⟨index, sig⟩ := found
      refine Always.after fun _ => finish fun es types sound => Lowered.Expr.sound_iff.2 ⟨?_, sound⟩
      have declared := (fits.function hf).1
      rwa [Signature.shape, ← types] at declared
  | none =>
      cases hb : Builtin.ofCallName? callee.text with
      | some kind =>
          refine Always.after fun _ => finish fun es types sound => ?_
          exact Lowered.Expr.sound_iff.2 ⟨⟨callName?_isSome hb, types⟩, sound⟩
      | none => exact Always.after fun _ => fun _ h => nomatch h

mutual

/-- What an expression is lowered to, if it is, is sound. -/
theorem checkExpr_always (fits : Fits Γ env) (named : Named Γ scope.frames) :
    ∀ e : Syntax.Expr, Always (fun e? => ∀ e ∈ e?, e.Sound Γ) (checkExpr env scope e)
  | .int value span => by
      rw [checkExpr]
      refine Always.after fun _ => Always.pure fun e made => ?_
      obtain ⟨-, ⟨⟩⟩ := (Option.ite_none_right_eq_some ..).1 made
      exact Expr.sound_of_leaf rfl trivial
  | .bool value span => by
      rw [checkExpr]
      rintro e ⟨⟩
      exact Expr.sound_of_leaf rfl trivial
  | .name text span => by
      rw [checkExpr]
      exact checkName_always fits named text span
  | .unary op operand span => by
      rw [checkExpr]
      split
      case isTrue =>
        rintro e ⟨⟩
        exact Expr.sound_of_leaf rfl trivial
      case isFalse =>
        refine (checkExpr_always fits named operand).bind fun e? sound => ?_
        cases e? with
        | none => exact Always.pure fun _ h => nomatch h
        | some e =>
            refine (expectType_always e _).bind fun ok same => Always.pure fun e' made => ?_
            obtain ⟨ok, ⟨⟩⟩ := (Option.ite_none_right_eq_some ..).1 made
            exact Lowered.Expr.sound_iff.2 ⟨same ok, List.forall_mem_singleton.2 (sound e rfl)⟩
  | .binary op lhs rhs span => by
      rw [checkExpr]
      refine (checkExpr_always fits named lhs).bind fun l? left => ?_
      refine (checkExpr_always fits named rhs).bind fun r? right => ?_
      cases l? with
      | none => exact Always.pure fun _ h => nomatch h
      | some l =>
          cases r? with
          | none => exact Always.pure fun _ h => nomatch h
          | some r =>
              refine (checkOperands_always op l.type r.type span).bind fun ok operands => ?_
              refine Always.pure fun e' made => ?_
              obtain ⟨ok, ⟨⟩⟩ := (Option.ite_none_right_eq_some ..).1 made
              exact Lowered.Expr.sound_iff.2 ⟨operands ok,
                List.forall_mem_cons.2 ⟨left l rfl, List.forall_mem_singleton.2 (right r rfl)⟩⟩
  | .call callee args span => by
      rw [checkExpr]
      refine (checkExprs_always fits named args).bind fun lowered sound => ?_
      exact checkCall_always fits sound callee span

theorem checkExprs_always (fits : Fits Γ env) (named : Named Γ scope.frames) :
    ∀ es : List Syntax.Expr,
      Always (fun lowered => ∀ a ∈ lowered, ∀ e ∈ a, e.Sound Γ) (checkExprs env scope es)
  | [] => fun _ h => nomatch h
  | e :: rest => by
      rw [checkExprs]
      refine (checkExpr_always fits named e).bind fun e? first => ?_
      refine (checkExprs_always fits named rest).bind fun es? others => ?_
      exact Always.pure (List.forall_mem_cons.2 ⟨first, others⟩)

end

theorem checkCondition_always (fits : Fits Γ env) (named : Named Γ scope.frames)
    (cond : Syntax.Expr) :
    Always (fun c? => ∀ c ∈ c?, c.Sound Γ ∧ c.type = .bool) (checkCondition env scope cond) := by
  refine (checkExpr_always fits named cond).bind fun e? sound => ?_
  cases e? with
  | none => exact Always.pure fun _ h => nomatch h
  | some e =>
      refine (expectType_always e .bool).bind fun ok same => Always.pure fun c made => ?_
      obtain ⟨ok, ⟨⟩⟩ := (Option.ite_none_right_eq_some ..).1 made
      exact ⟨sound e rfl, same ok⟩

/-! ### Statements -/

theorem Named.enter (named : Named Γ scope.frames) : Named Γ scope.enter.frames :=
  List.forall_mem_cons.2 ⟨fun _ h => (nomatch h), named⟩

theorem Named.declare (named : Named Γ scope.frames) {name : String} {type : Ty}
    (pre : (scope.declare name type).types <+: Γ.locals) :
    Named Γ (scope.declare name type).frames := by
  unfold Scope.declare
  cases frames : scope.frames with
  | nil => exact fun _ h => nomatch h
  | cons frame outer =>
      rw [frames] at named
      obtain ⟨inner, others⟩ := List.forall_mem_cons.1 named
      exact List.forall_mem_cons.2
        ⟨List.forall_mem_cons.2 ⟨getElem?_of_types_declare pre, inner⟩, others⟩

/-- A statement whose only part is an expression. -/
theorem Stmt.sound_of_value {s : Stmt} {e : Expr} (value : s.parts = [.expr e])
    (sound : (Node.stmt s).Sound Γ) (below : e.Sound Γ) : s.Sound Γ :=
  Lowered.Stmt.sound_iff.2 ⟨sound, by rw [value]; exact List.forall_mem_singleton.2 below⟩

/-- Statements have taken one scope to another. They are sound in any context that goes on from the
locals behind them. -/
structure Grows (Γ : Context) (scope : Scope) (body : List Stmt) (scope' : Scope) : Prop where
  grows : scope.types <+: scope'.types
  named : Named Γ scope.frames → scope'.types <+: Γ.locals → Named Γ scope'.frames
  sound : Named Γ scope.frames → scope'.types <+: Γ.locals → ∀ s ∈ body, s.Sound Γ

namespace Grows

variable {scope' scope'' : Scope} {body rest : List Stmt}

/-- The scope stays as it is. -/
theorem stays (sound : Named Γ scope.frames → ∀ s ∈ body, s.Sound Γ) : Grows Γ scope body scope :=
  ⟨List.prefix_rfl, fun named _ => named, fun named _ => sound named⟩

theorem nil (scope : Scope) : Grows Γ scope [] scope :=
  stays fun _ _ h => nomatch h

theorem append (h : Grows Γ scope body scope') (h' : Grows Γ scope' rest scope'') :
    Grows Γ scope (body ++ rest) scope'' where
  grows := h.grows.trans h'.grows
  named := fun named pre => h'.named (h.named named (h'.grows.trans pre)) pre
  sound := fun named pre =>
    have before := h'.grows.trans pre
    List.forall_mem_append.2 ⟨h.sound named before, h'.sound (h.named named before) pre⟩

/-- A block closes its scope. -/
theorem leave (h : Grows Γ scope.enter body scope') :
    Grows Γ scope body { scope' with frames := scope.frames } :=
  ⟨h.grows, fun named _ => named, fun named pre => h.sound named.enter pre⟩

/-- A statement around blocks that is left out if there is something wrong with its condition. -/
theorem around (h : Grows Γ scope body scope') {c? : Option Expr} {build : Expr → Stmt}
    (cond : Named Γ scope.frames → ∀ c ∈ c?, c.Sound Γ ∧ c.type = .bool)
    (builds : ∀ c, (build c).parts = .expr c :: body.map .stmt)
    (asks : ∀ c, c.type = .bool → (Node.stmt (build c)).Sound Γ) :
    Grows Γ scope (c?.map build).toList scope' where
  grows := h.grows
  named := h.named
  sound := by
    intro named pre s mem
    obtain ⟨c, made, rfl⟩ := Option.map_eq_some_iff.1 (Option.mem_toList.1 mem)
    obtain ⟨sound, bool⟩ := cond named c made
    refine Lowered.Stmt.sound_iff.2 ⟨asks c bool, ?_⟩
    rw [builds]
    exact List.forall_mem_cons.2 ⟨sound, List.forall_mem_map.2 (h.sound named pre)⟩

/-- A declaration, left out if there is something wrong with its value. -/
theorem declares (value? : Option Expr) (name : String) (type : Ty) (span : Span)
    (sound : Named Γ scope.frames → ∀ e ∈ value?, e.Sound Γ ∧ e.type = type) :
    Grows Γ scope (value?.map fun e => .letIn scope.locals.size e span).toList
      (scope.declare name type) where
  grows := prefix_declare scope name type
  named := fun named pre => named.declare pre
  sound := by
    intro named pre s mem
    obtain ⟨e, made, rfl⟩ := Option.map_eq_some_iff.1 (Option.mem_toList.1 mem)
    obtain ⟨below, rfl⟩ := sound named e made
    exact Stmt.sound_of_value rfl (getElem?_of_types_declare pre) below

end Grows

theorem checkLet_always (fits : Fits Γ env) (name : Name) (ascribed : Option ValueType)
    (value : Syntax.Expr) (span : Span) :
    Always (fun r => Grows Γ scope r.1.toList r.2)
      (checkLet env scope name ascribed value span) := by
  have sound (named : Named Γ scope.frames) := checkExpr_always fits named value
  unfold checkLet
  refine Always.after fun _ => ?_
  unfold Always at sound ⊢
  rw [Checked.value_bind]
  generalize (checkExpr env scope value).value = e? at sound ⊢
  cases e? with
  | none =>
      cases ascribed with
      | none => exact Grows.declares none name.text .i32 span fun _ _ h => nomatch h
      | some type => exact Grows.declares none name.text type.ty span fun _ _ h => nomatch h
  | some e =>
      cases ascribed with
      | none =>
          refine Grows.declares (some e) name.text e.type span fun named e' made => ?_
          obtain ⟨⟩ := made
          exact ⟨sound named e rfl, rfl⟩
      | some type =>
          refine Grows.declares (if e.type == type.ty then some e else none) name.text type.ty span
            fun named e' made => ?_
          obtain ⟨ok, ⟨⟩⟩ := (Option.ite_none_right_eq_some ..).1 made
          exact ⟨sound named e rfl, eq_of_beq ok⟩

theorem checkAssign_always (fits : Fits Γ env) (named : Named Γ scope.frames) (target : Name)
    (value : Syntax.Expr) (span : Span) :
    Always (fun s? => ∀ s ∈ s?, s.Sound Γ) (checkAssign env scope target value span) := by
  refine (checkExpr_always fits named value).bind fun e? sound => ?_
  cases hb : scope.lookup? target.text with
  | some b =>
      cases e? with
      | none => exact Always.pure fun _ h => nomatch h
      | some e =>
          refine Always.after fun _ => Always.pure ?_
          rintro s ⟨⟩
          exact Stmt.sound_of_value rfl (List.getElem?_eq_some_iff.1 (named.lookup hb)).1
            (sound e rfl)
  | none =>
      cases hs : env.slot? target.text with
      | none => exact Always.after fun _ => fun _ h => nomatch h
      | some found =>
          refine Always.after fun _ => ?_
          cases e? with
          | none => exact Always.pure fun _ h => nomatch h
          | some e =>
              refine Always.after fun _ => Always.pure ?_
              rintro s ⟨⟩
              exact Stmt.sound_of_value rfl (List.getElem?_eq_some_iff.1 (fits.slot hs).1).1
                (sound e rfl)

theorem checkReturn_always (fits : Fits Γ env) (named : Named Γ scope.frames)
    (value : Option Syntax.Expr) (span : Span) :
    Always (fun s? => ∀ s ∈ s?, s.Sound Γ) (checkReturn env scope value span) := by
  cases value with
  | none =>
      refine Always.after fun _ => Always.pure ?_
      rintro s ⟨⟩
      exact Lowered.Stmt.sound_iff.2 ⟨trivial, fun _ h => nomatch h⟩
  | some value =>
      refine (checkExpr_always fits named value).bind fun e? sound => ?_
      cases e? with
      | none => exact Always.pure fun _ h => nomatch h
      | some e =>
          have returned : ∀ s ∈ some (Stmt.returns (some e) span), s.Sound Γ := by
            rintro s ⟨⟩
            exact Stmt.sound_of_value rfl trivial (sound e rfl)
          dsimp only
          split
          · exact Always.after fun _ => returned
          · exact Always.after fun _ => returned

mutual

theorem checkStmt_always (fits : Fits Γ env) : ∀ (s : Syntax.Stmt) (scope : Scope),
    Always (fun r => Grows Γ scope r.1.toList r.2) (checkStmt env scope s)
  | .letIn name ascribed value span, scope => checkLet_always fits name ascribed value span
  | .assign target value span, scope => by
      rw [checkStmt]
      refine Grows.stays fun named s mem => ?_
      exact checkAssign_always fits named target value span s (Option.mem_toList.1 mem)
  | .ifThen cond yes no span, scope => by
      rw [checkStmt]
      have onYes := checkBlock_always fits yes scope
      cases no with
      | none =>
          exact Grows.around (Grows.append onYes (Grows.nil _)) (checkCondition_always fits · cond)
            (fun _ => rfl) fun _ bool => bool
      | some no =>
          exact Grows.around (Grows.append onYes (checkBlock_always fits no _))
            (checkCondition_always fits · cond) (fun _ => rfl) fun _ bool => bool
  | .whileDo cond body span, scope => by
      rw [checkStmt]
      exact Grows.around (checkBlock_always fits body scope) (checkCondition_always fits · cond)
        (fun _ => rfl) fun _ bool => bool
  | .returns value span, scope => by
      rw [checkStmt]
      refine Grows.stays fun named s mem => ?_
      exact checkReturn_always fits named value span s (Option.mem_toList.1 mem)
  | .require cond span, scope => by
      rw [checkStmt]
      exact Grows.around (Grows.nil scope) (checkCondition_always fits · cond) (fun _ => rfl)
        fun _ bool => bool
  | .eval value span, scope => by
      rw [checkStmt]
      refine Grows.stays fun named s mem => ?_
      obtain ⟨e, made, rfl⟩ := Option.map_eq_some_iff.1 (Option.mem_toList.1 mem)
      exact Stmt.sound_of_value rfl trivial (checkExpr_always fits named value e made)

theorem checkBlock_always (fits : Fits Γ env) : ∀ (b : Syntax.Block) (scope : Scope),
    Always (fun r => Grows Γ scope r.1 r.2) (checkBlock env scope b)
  | .mk stmts span, scope => by
      rw [checkBlock]
      exact (checkStmts_always fits stmts scope.enter).leave

theorem checkStmts_always (fits : Fits Γ env) : ∀ (body : List Syntax.Stmt) (scope : Scope),
    Always (fun r => Grows Γ scope r.1 r.2) (checkStmts env scope body)
  | [], scope => Grows.nil scope
  | s :: rest, scope => by
      rw [checkStmts]
      refine (checkStmt_always fits s scope).bind fun first keeps => ?_
      refine (checkStmts_always fits rest first.2).bind fun others keeps' => ?_
      exact Always.pure (keeps.append keeps')

end

end

/-! ### Declarations -/

theorem checkParams_always (storage : List Variable) (params : List Syntax.Param) (scope : Scope) :
    Always (fun scope' => scope'.types = scope.types ++ params.map (·.type.ty) ∧
      ∀ Γ : Context, scope'.types <+: Γ.locals → Named Γ scope.frames → Named Γ scope'.frames)
      (checkParams storage params scope) := by
  induction params generalizing scope with
  | nil => exact Always.pure ⟨by simp, fun _ _ named => named⟩
  | cons p rest ih =>
      refine Always.after fun _ => Always.after fun _ => ?_
      obtain ⟨types, named⟩ := ih (scope.declare p.name.text p.type.ty)
      refine ⟨by rw [types]; simp, fun Γ pre before => named Γ pre (before.declare ?_)⟩
      exact List.IsPrefix.trans ⟨_, types.symm⟩ pre

/-- A function is lowered to what its declaration says, with a sound body wherever the storage and
the signatures are those that it was checked against. -/
structure Declared (storage : List Variable) (signatures : List Signature)
    (decl : Syntax.FunctionDecl) (f : Function) : Prop where
  paramCount_le : f.paramCount ≤ f.locals.length
  signature : f.signature = (Signature.ofDecl decl).shape
  sound : ∀ c : Contract, c.storage = storage →
    c.functions.map (·.signature) = signatures.map (·.shape) → ∀ s ∈ f.body, s.Sound (c.context f)

theorem checkFunction_always {storage : List Variable} {signatures : List Signature}
    (hasStorage : ∀ v ∈ storage, v.type.hasValue)
    (hasParams : ∀ s ∈ signatures, ∀ t ∈ s.params, t.hasValue) (decl : Syntax.FunctionDecl) :
    Always (Declared storage signatures decl) (checkFunction storage signatures decl) := by
  unfold checkFunction
  refine (checkParams_always storage decl.params ⟨#[], [[]]⟩).bind fun scope params => ?_
  obtain ⟨types, named⟩ := params
  replace types : scope.types = decl.params.map (·.type.ty) := types
  refine Always.bind (P := fun r : List Stmt × Scope => ∀ Γ : Context,
    Fits Γ ⟨storage, signatures, Ty.ofResult decl.result, decl.isView⟩ → Grows Γ scope r.1 r.2)
    (fun Γ fits => checkBlock_always fits decl.body scope) fun (body, inner) keeps => ?_
  refine Always.after fun _ => Always.pure ?_
  -- The locals are only complete behind the body, which is sound where they are.
  let Γ : Context :=
    ⟨storage.map (·.type), signatures.map (·.shape), inner.types, Ty.ofResult decl.result⟩
  replace keeps : Grows Γ scope body inner := keeps Γ ⟨rfl, hasStorage, rfl, hasParams, rfl⟩
  have before : Named Γ scope.frames := by
    refine named Γ keeps.grows (List.forall_mem_singleton.2 fun _ h => nomatch h)
  refine ⟨?_, ?_, fun c hs hg => ?_⟩
  · simpa using keeps.grows.length_le
  · have first := List.prefix_iff_eq_take.1 keeps.grows
    rw [Function.signature, Function.params, List.map_take, Signature.ofDecl, Signature.shape,
      ← types, first, Scope.length_types]
    rfl
  · rw [Contract.context, hs, hg]
    exact keeps.sound before List.prefix_rfl

theorem checkFunctions_value (storage : List Variable) (signatures : List Signature)
    (decls : List Syntax.FunctionDecl) :
    (checkFunctions storage signatures decls).value =
      decls.map fun decl => (checkFunction storage signatures decl).value := by
  induction decls with
  | nil => rfl
  | cons decl rest ih =>
      rw [checkFunctions, Checked.value_bind, Checked.value_bind, Checked.value_pure, ih]
      rfl

theorem checkStorage_always (done : List Variable) (decls : List Syntax.StorageDecl)
    (nodup : (done.map (·.name)).Nodup) (has : ∀ v ∈ done, v.type.hasValue) :
    Always (fun storage => (storage.map (·.name)).Nodup ∧ ∀ v ∈ storage, v.type.hasValue)
      (checkStorage done decls) := by
  induction decls generalizing done with
  | nil => exact Always.pure ⟨nodup, has⟩
  | cons d rest ih =>
      rw [checkStorage]
      refine Always.after fun _ => ?_
      split
      case isTrue => exact ih done nodup has
      case isFalse once =>
        have new : d.name.text ∉ done.map (·.name) := by simpa [List.any_eq_false] using once
        refine ih _ ?_ ?_
        · simpa [List.nodup_append, nodup] using new
        · exact List.forall_mem_append.2 ⟨has, List.forall_mem_singleton.2 (hasValue_ty d.type)⟩

theorem checkContract_always (source : Syntax.Contract) :
    Always Contract.Sound (checkContract source) := by
  refine (checkStorage_always [] source.storage .nil fun _ h => nomatch h).bind
    fun storage found => ?_
  refine Always.after fun declared => ?_
  obtain ⟨nodup, hasStorage⟩ := found
  have hasParams : ∀ s ∈ declared.map Signature.ofDecl, ∀ t ∈ s.params, t.hasValue := by
    intro s hs t ht
    obtain ⟨decl, -, rfl⟩ := List.mem_map.1 hs
    obtain ⟨p, -, rfl⟩ := List.mem_map.1 ht
    exact hasValue_ty p.type
  have each (decl : Syntax.FunctionDecl) := checkFunction_always hasStorage hasParams decl
  unfold Always at each ⊢
  rw [Checked.value_bind, Checked.value_pure, checkFunctions_value]
  refine ⟨nodup, List.forall_mem_map.2 fun decl _ => (each decl).paramCount_le, ?_⟩
  refine List.forall_mem_map.2 fun decl _ path n leads => ?_
  refine Function.at?_everywhere ((each decl).sound _ rfl ?_) leads
  rw [List.map_map, List.map_map]
  exact List.map_congr_left fun decl _ => (each decl).signature

/-- Whatever is wrong with a contract, what it is lowered to is sound, and a storage variable is
found by its name in its own slot. -/
theorem analyze_sound (source : Syntax.Contract) :
    (analyze source).contract.Sound ∧
    ∀ env : Env, env.storage = (analyze source).contract.storage → ∀ i v,
      (analyze source).contract.storage[i]? = some v → env.slot? v.name = some (i, v.type) := by
  have sound : (analyze source).contract.Sound := checkContract_always source
  refine ⟨sound, fun env same i v there => ?_⟩
  rw [Env.slot?_eq_some_iff, same]
  refine ⟨List.findIdx?_eq_some_iff_getElem.2 ?_, v, there, rfl⟩
  obtain ⟨lt, rfl⟩ := List.getElem?_eq_some_iff.1 there
  refine ⟨lt, beq_self_eq_true _, fun j less => ?_⟩
  have apart := List.pairwise_iff_getElem.1 (List.pairwise_map.1 sound.storage) j i
    (Nat.lt_trans less lt) lt less
  simpa using apart

end Workbench.Check
