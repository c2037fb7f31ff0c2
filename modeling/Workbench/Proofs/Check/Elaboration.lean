import Mathlib.Data.List.Nodup
import Workbench.Check.Lowering
import Workbench.Proofs.Lowered.Typing

/-!
# What the check lowers contracts to

The check does three things at once: it resolves names, compares types and builds the lowered form.
`ExprLowers`, `StmtLowers` and their kin say what it comes to when it meets no problem, one rule for
each form of the language, and leave out how problems are told and got over. The main statement is
that a contract is checked without a problem, with a certain lowered form, exactly if that form
follows by the rules. Whatever is to be said about accepted contracts can be read off the rules.

A rule for a statement names the scope behind it, since a declaration is in sight of what follows. A
block gives back the names that were in sight before it and keeps the table of locals.
-/

namespace Workbench.Check

open Source (Span)
open Lang (Ty ValueType UnaryOp BinaryOp Builtin Word)
open Syntax (Name)
open Lowered (Expr Stmt Variable Function Contract)
open Checked (report reportIf)

/-! ### Checks without problems -/

namespace Checked

variable {α β : Type}

instance : LawfulMonad Checked :=
  LawfulMonad.mk' Checked
    (fun x => by cases x; simp [Functor.map, Checked.bind, Checked.pure])
    (fun _ _ => rfl)
    (fun x _ _ => by simp [Bind.bind, Checked.bind])

@[simp] theorem reportIf_eq {condition : Bool} (h : condition = false) (problem : Problem)
    (span : Span) : reportIf condition problem span = pure () := by
  rw [h]
  rfl

/-- If a check meets no problem then its value has a property. -/
def Ensures (P : α → Prop) (x : Checked α) : Prop :=
  x.problems = [] → P x.value

namespace Ensures

theorem pure {P : α → Prop} {a : α} (h : P a) : Ensures P (pure a) :=
  fun _ => h

theorem bind {P : α → Prop} {Q : β → Prop} {x : Checked α} {f : α → Checked β}
    (hx : Ensures P x) (hf : ∀ a, P a → Ensures Q (f a)) : Ensures Q (x >>= f) := by
  intro none
  rw [problems_bind, List.append_eq_nil_iff] at none
  exact hf x.value (hx none.1) none.2

theorem report {P : Unit → Prop} (problem : Problem) (span : Span) :
    Ensures P (report problem span) :=
  fun none => nomatch none

theorem reportIf (condition : Bool) (problem : Problem) (span : Span) :
    Ensures (fun _ => condition = false) (reportIf condition problem span) := by
  cases condition with
  | false => exact fun _ => rfl
  | true => exact report problem span

/-- Behind a reported problem nothing has to be shown. -/
theorem report_bind {P : β → Prop} (problem : Problem) (span : Span) (f : Unit → Checked β) :
    Ensures P (Checked.report problem span >>= f) :=
  (report (P := fun _ => False) problem span).bind fun _ h => h.elim

end Ensures

end Checked

open Checked (Ensures)

/-! ### Names -/

theorem lookup_cons {α : Type} (text name : String) (value : α) (rest : List (String × α)) :
    ((text, value) :: rest).lookup name = if text = name then some value else rest.lookup name := by
  split
  case isTrue same => rw [same, List.lookup_cons_self]
  case isFalse other => rw [List.lookup_cons, beq_false_of_ne (Ne.symm other)]

theorem find?_name_cons (b : Binding) (frame : List Binding) (name : String) :
    ((b :: frame).find? fun b' => b'.name == name) =
      if b.name = name then some b else frame.find? fun b' => b'.name == name := by
  by_cases h : b.name = name <;> simp [h]

/-- A new name hides an older one. -/
theorem Scope.lookup?_declare {scope : Scope} (nonempty : scope.frames ≠ []) (text : String)
    (type : Ty) (name : String) :
    (scope.declare text type).lookup? name =
      if text = name then some ⟨text, scope.locals.size, type⟩ else scope.lookup? name := by
  obtain ⟨frame, outer, frames⟩ := List.exists_cons_of_ne_nil nonempty
  simp only [lookup?, declare, frames, List.findSome?_cons, find?_name_cons]
  by_cases h : text = name <;> simp [h]

theorem Env.slot?_eq_some_iff {env : Env} {name : String} {index : Nat} {type : Ty} :
    env.slot? name = some (index, type) ↔
      env.storage.findIdx? (fun v => v.name == name) = some index ∧
        ∃ v, env.storage[index]? = some v ∧ v.type = type := by
  simp only [slot?, Option.bind_eq_bind, Option.bind_eq_some_iff]
  constructor
  · rintro ⟨i, hi, v, hv, same⟩
    cases same
    exact ⟨hi, v, hv, rfl⟩
  · rintro ⟨hi, v, hv, rfl⟩
    exact ⟨index, hi, v, hv, rfl⟩

theorem Env.function?_eq_some_iff {env : Env} {name : String} {index : Nat} {sig : Signature} :
    env.function? name = some (index, sig) ↔
      env.signatures.findIdx? (fun s => s.name == name) = some index ∧
        env.signatures[index]? = some sig := by
  simp only [function?, Option.bind_eq_bind, Option.bind_eq_some_iff]
  constructor
  · rintro ⟨i, hi, s, hs, same⟩
    cases same
    exact ⟨hi, hs⟩
  · rintro ⟨hi, hs⟩
    exact ⟨index, hi, sig, hs, rfl⟩

theorem Env.function?_eq_none_iff {env : Env} {name : String} :
    env.function? name = none ↔ ∀ s ∈ env.signatures, s.name ≠ name := by
  cases h : env.signatures.findIdx? fun s => s.name == name with
  | none =>
      have missing := List.findIdx?_eq_none_iff.1 h
      simpa [function?, h] using missing
  | some index =>
      obtain ⟨lt, named, -⟩ := List.findIdx?_eq_some_iff_getElem.1 h
      have known : ¬ ∀ s ∈ env.signatures, s.name ≠ name := fun other =>
        other _ (List.getElem_mem lt) (by simpa using named)
      simp only [known, iff_false]
      simp [function?, h, lt]

/-! ### Expressions -/

mutual

/-- What an expression is lowered to in a scope. -/
inductive ExprLowers (env : Env) (scope : Scope) : Syntax.Expr → Expr → Prop
  | int {value : Nat} {span : Span} : value < leastMagnitude →
      ExprLowers env scope (.int value span) (.int (BitVec.ofNat 32 value) span)
  | bool {value : Bool} {span : Span} : ExprLowers env scope (.bool value span) (.bool value span)
  | var {text : String} {span : Span} {b : Binding} : scope.lookup? text = some b →
      ExprLowers env scope (.name text span) (.var b.index b.type span)
  | slot {text : String} {span : Span} {index : Nat} {type : Ty} : scope.lookup? text = none →
      env.slot? text = some (index, type) →
      ExprLowers env scope (.name text span) (.slot index type span)
  /-- The one literal that fits only with its sign. -/
  | least {inner span : Span} :
      ExprLowers env scope (.unary .neg (.int leastMagnitude inner) span) (.int Word.least span)
  | unary {op : UnaryOp} {operand : Syntax.Expr} {span : Span} {e : Expr} :
      ExprLowers env scope operand e → e.type = Lowered.unaryType op →
      ExprLowers env scope (.unary op operand span) (.unary op e span)
  | binary {op : BinaryOp} {lhs rhs : Syntax.Expr} {span : Span} {l r : Expr} :
      ExprLowers env scope lhs l → ExprLowers env scope rhs r →
      Lowered.Operands op l.type r.type →
      ExprLowers env scope (.binary op lhs rhs span) (.binary op l r span)
  | call {callee : Name} {args : List Syntax.Expr} {span : Span} {index : Nat} {sig : Signature}
      {es : List Expr} : env.function? callee.text = some (index, sig) →
      (env.isView → sig.isView) → ArgsLower env scope args es sig.params →
      ExprLowers env scope (.call callee args span) (.call index es sig.result span)
  | builtin {callee : Name} {args : List Syntax.Expr} {span : Span} {kind : Builtin}
      {es : List Expr} : env.function? callee.text = none →
      Builtin.ofCallName? callee.text = some kind → (env.isView → kind.changesState = false) →
      ArgsLower env scope args es kind.params →
      ExprLowers env scope (.call callee args span) (.builtin kind es span)

/-- What arguments of given types are lowered to. -/
inductive ArgsLower (env : Env) (scope : Scope) : List Syntax.Expr → List Expr → List Ty → Prop
  | nil : ArgsLower env scope [] [] []
  | cons {arg : Syntax.Expr} {args : List Syntax.Expr} {e : Expr} {es : List Expr}
      {types : List Ty} : ExprLowers env scope arg e → ArgsLower env scope args es types →
      ArgsLower env scope (arg :: args) (e :: es) (e.type :: types)

end

/-! ### Statements -/

mutual

/-- What a statement is lowered to in a scope, with the scope behind it. -/
inductive StmtLowers (env : Env) : Scope → Syntax.Stmt → Stmt → Scope → Prop
  | letIn {scope : Scope} {name : Name} {ascribed : Option ValueType} {value : Syntax.Expr}
      {span : Span} {e : Expr} : name.text ∉ env.storage.map (·.name) →
      ExprLowers env scope value e → (∀ type ∈ ascribed, e.type = type.ty) → e.type ≠ .unit →
      StmtLowers env scope (.letIn name ascribed value span) (.letIn scope.locals.size e span)
        (scope.declare name.text e.type)
  | set {scope : Scope} {target : Name} {value : Syntax.Expr} {span : Span} {b : Binding}
      {e : Expr} : scope.lookup? target.text = some b → ExprLowers env scope value e →
      e.type = b.type → StmtLowers env scope (.assign target value span) (.set b.index e span) scope
  | store {scope : Scope} {target : Name} {value : Syntax.Expr} {span : Span} {index : Nat}
      {type : Ty} {e : Expr} : scope.lookup? target.text = none →
      env.slot? target.text = some (index, type) → env.isView = false →
      ExprLowers env scope value e → e.type = type →
      StmtLowers env scope (.assign target value span) (.store index e span) scope
  | ifThen {scope scope' : Scope} {cond : Syntax.Expr} {yes : Syntax.Block} {span : Span}
      {c : Expr} {onYes : List Stmt} : ExprLowers env scope cond c → c.type = .bool →
      BlockLowers env scope yes onYes scope' →
      StmtLowers env scope (.ifThen cond yes none span) (.ifThen c onYes [] span) scope'
  | ifElse {scope scope' scope'' : Scope} {cond : Syntax.Expr} {yes no : Syntax.Block} {span : Span}
      {c : Expr} {onYes onNo : List Stmt} : ExprLowers env scope cond c → c.type = .bool →
      BlockLowers env scope yes onYes scope' → BlockLowers env scope' no onNo scope'' →
      StmtLowers env scope (.ifThen cond yes (some no) span) (.ifThen c onYes onNo span) scope''
  | whileDo {scope scope' : Scope} {cond : Syntax.Expr} {body : Syntax.Block} {span : Span}
      {c : Expr} {round : List Stmt} : ExprLowers env scope cond c → c.type = .bool →
      BlockLowers env scope body round scope' →
      StmtLowers env scope (.whileDo cond body span) (.whileDo c round span) scope'
  | returns {scope : Scope} {span : Span} : env.result = .unit →
      StmtLowers env scope (.returns none span) (.returns none span) scope
  | returnsValue {scope : Scope} {value : Syntax.Expr} {span : Span} {e : Expr} :
      ExprLowers env scope value e → env.result ≠ .unit → e.type = env.result →
      StmtLowers env scope (.returns (some value) span) (.returns (some e) span) scope
  | require {scope : Scope} {cond : Syntax.Expr} {span : Span} {c : Expr} :
      ExprLowers env scope cond c → c.type = .bool →
      StmtLowers env scope (.require cond span) (.require c span) scope
  | eval {scope : Scope} {value : Syntax.Expr} {span : Span} {e : Expr} :
      ExprLowers env scope value e →
      StmtLowers env scope (.eval value span) (.eval e span) scope

/-- What a block is lowered to. -/
inductive BlockLowers (env : Env) : Scope → Syntax.Block → List Stmt → Scope → Prop
  | mk {scope inner : Scope} {stmts : List Syntax.Stmt} {span : Span} {body : List Stmt} :
      StmtsLower env scope.enter stmts body inner →
      BlockLowers env scope (.mk stmts span) body { inner with frames := scope.frames }

/-- What statements in order are lowered to. -/
inductive StmtsLower (env : Env) : Scope → List Syntax.Stmt → List Stmt → Scope → Prop
  | nil {scope : Scope} : StmtsLower env scope [] [] scope
  | cons {scope scope' scope'' : Scope} {s : Syntax.Stmt} {rest : List Syntax.Stmt} {first : Stmt}
      {others : List Stmt} : StmtLowers env scope s first scope' →
      StmtsLower env scope' rest others scope'' →
      StmtsLower env scope (s :: rest) (first :: others) scope''

end

/-! ### Declarations -/

/-- Parameters with different names, none of them that of a storage variable, with the scope behind
them. -/
inductive ParamsLower (storage : List Variable) : Scope → List Syntax.Param → Scope → Prop
  | nil {scope : Scope} : ParamsLower storage scope [] scope
  | cons {scope scope' : Scope} {p : Syntax.Param} {rest : List Syntax.Param} :
      scope.lookup? p.name.text = none → p.name.text ∉ storage.map (·.name) →
      ParamsLower storage (scope.declare p.name.text p.type.ty) rest scope' →
      ParamsLower storage scope (p :: rest) scope'

/-- What the body of a function is checked in. -/
def Env.ofDecl (storage : List Variable) (signatures : List Signature)
    (decl : Syntax.FunctionDecl) : Env :=
  ⟨storage, signatures, Ty.ofResult decl.result, decl.isView⟩

/-- What a function is lowered to. -/
inductive FunctionLowers (storage : List Variable) (signatures : List Signature)
    (decl : Syntax.FunctionDecl) : Function → Prop
  | mk {scope inner : Scope} {body : List Stmt} :
      ParamsLower storage ⟨#[], [[]]⟩ decl.params scope →
      BlockLowers (.ofDecl storage signatures decl) scope decl.body body inner →
      (Ty.ofResult decl.result ≠ .unit → Stmt.anyDiverges body) →
      FunctionLowers storage signatures decl
        { name := decl.name.text
          paramCount := scope.locals.size
          result := Ty.ofResult decl.result
          locals := inner.locals.toList
          body
          isPublic := decl.isPublic
          isView := decl.isView
          span := decl.span }

/-- The storage variable of a declaration. -/
def variableOf (d : Syntax.StorageDecl) : Variable :=
  ⟨d.name.text, d.type.ty⟩

/-- The storage variables that a contract declares. -/
def storageOf (source : Syntax.Contract) : List Variable :=
  source.storage.map variableOf

def signaturesOf (source : Syntax.Contract) : List Signature :=
  source.functions.map Signature.ofDecl

/-- What a contract is lowered to. -/
structure ContractLowers (source : Syntax.Contract) (c : Contract) : Prop where
  storage_nodup : (source.storage.map (·.name.text)).Nodup
  functions_nodup : (source.functions.map (·.name.text)).Nodup
  noBuiltin : ∀ f ∈ source.functions, Builtin.ofCallName? f.name.text = none
  functions : List.Forall₂ (FunctionLowers (storageOf source) (signaturesOf source))
    source.functions c.functions
  storage : c.storage = storageOf source
  name : c.name = source.name.text
  span : c.span = source.span

theorem getElem?_of_forall₂ {α β : Type} {R : α → β → Prop} {as : List α} {bs : List β}
    (h : List.Forall₂ R as bs) {index : Nat} {b : β} (found : bs[index]? = some b) :
    ∃ a, as[index]? = some a ∧ R a b := by
  induction h generalizing index with
  | nil => simp at found
  | cons first _ ih =>
      cases index with
      | zero =>
          cases found
          exact ⟨_, rfl, first⟩
      | succ index => exact ih found

/-- The functions of a contract are those that it declares, in order. -/
theorem ContractLowers.function {source : Syntax.Contract} {c : Contract}
    (lowers : ContractLowers source c) {index : Nat} {f : Function}
    (found : c.functions[index]? = some f) :
    ∃ decl, source.functions[index]? = some decl ∧
      FunctionLowers (storageOf source) (signaturesOf source) decl f :=
  getElem?_of_forall₂ lowers.functions found

theorem FunctionLowers.name_eq {storage : List Variable} {signatures : List Signature}
    {decl : Syntax.FunctionDecl} {f : Function}
    (lowers : FunctionLowers storage signatures decl f) : f.name = decl.name.text := by
  cases lowers
  rfl

/-- Functions keep their names. -/
theorem ContractLowers.names {source : Syntax.Contract} {c : Contract}
    (lowers : ContractLowers source c) :
    c.functions.map (·.name) = source.functions.map (·.name.text) := by
  have each : List.Forall₂ Eq (c.functions.map (·.name))
      (source.functions.map (·.name.text)) := by
    simpa only [List.forall₂_map_left_iff, List.forall₂_map_right_iff] using
      lowers.functions.flip.imp fun _ _ h => h.name_eq
  rwa [List.forall₂_eq_eq_eq] at each

/-! ### What passes the check follows by the rules -/

theorem hasValue_of_ne_unit {type : Ty} (h : type ≠ .unit) : type.hasValue := by
  cases type <;> first | rfl | contradiction

theorem expectType_ensures (e : Expr) (expected : Ty) :
    Ensures (fun ok => ok = true ∧ e.type = expected) (expectType e expected) := by
  refine (Ensures.reportIf _ _ _).bind fun _ same => Ensures.pure ?_
  have same : e.type = expected := by simpa using same
  exact ⟨by simp [same], same⟩

theorem checkOperands_ensures (op : BinaryOp) (left right : Ty) (span : Span) :
    Ensures (fun ok => ok = true ∧ Lowered.Operands op left right)
      (checkOperands op left right span) := by
  cases op <;>
    refine (Ensures.reportIf _ _ _).bind fun _ ok => Ensures.pure ?_
  case eq | ne =>
    have ok : left = right ∧ left ≠ .unit := by simpa using ok
    exact ⟨by simpa using ok, ok.1, hasValue_of_ne_unit ok.2⟩
  case and | or =>
    have ok : left = .bool ∧ right = .bool := by simpa using ok
    exact ⟨by simpa using ok, ok⟩
  all_goals
    have ok : left = .i32 ∧ right = .i32 := by simpa using ok
    exact ⟨by simpa using ok, ok⟩

section

variable {env : Env} {scope : Scope}

theorem checkName_ensures (text : String) (span : Span) :
    Ensures (fun e? => ∃ e, e? = some e ∧ ExprLowers env scope (.name text span) e)
      (checkName env scope text span) := by
  unfold checkName
  cases hb : scope.lookup? text with
  | some b => exact Ensures.pure ⟨_, rfl, .var hb⟩
  | none =>
      cases hs : env.slot? text with
      | some found => exact Ensures.pure ⟨_, rfl, .slot hb hs⟩
      | none => exact Ensures.report_bind _ _ _

/-- Checked arguments are what each of them was lowered to. -/
theorem checkArguments_ensures {args : List Syntax.Expr} {es : List Expr}
    (lower : List.Forall₂ (ExprLowers env scope) args es) {types : List Ty}
    (length : types.length = es.length) :
    Ensures (fun args? => args? = some es ∧ ArgsLower env scope args es types)
      (checkArguments (es.map some) types) := by
  induction lower generalizing types with
  | nil =>
      cases List.length_eq_zero_iff.1 length
      exact Ensures.pure ⟨rfl, .nil⟩
  | cons first _ ih =>
      cases types with
      | nil => simp at length
      | cons type types =>
          refine (expectType_ensures _ type).bind fun ok same => ?_
          refine (ih (by simpa using length)).bind fun rest? rest => Ensures.pure ?_
          obtain ⟨rfl, rfl⟩ := same
          obtain ⟨rfl, others⟩ := rest
          exact ⟨rfl, .cons first others⟩

theorem checkCall_ensures {args : List Syntax.Expr} {es : List Expr}
    (lower : List.Forall₂ (ExprLowers env scope) args es) (callee : Name) (span : Span) :
    Ensures (fun e? => ∃ e, e? = some e ∧ ExprLowers env scope (.call callee args span) e)
      (checkCall env callee (es.map some) span) := by
  unfold checkCall
  cases hf : env.function? callee.text with
  | some found =>
      obtain ⟨index, sig⟩ := found
      refine (Ensures.reportIf _ _ _).bind fun _ view => ?_
      have view : env.isView → sig.isView := by simpa using view
      dsimp only
      split
      case isTrue length =>
        refine (checkArguments_ensures lower (by simpa using length)).bind fun args? found => ?_
        obtain ⟨rfl, lower⟩ := found
        exact Ensures.pure ⟨_, rfl, .call hf view lower⟩
      case isFalse => exact Ensures.report_bind _ _ _
  | none =>
      cases hb : Builtin.ofCallName? callee.text with
      | some kind =>
          refine (Ensures.reportIf _ _ _).bind fun _ view => ?_
          have view : env.isView → kind.changesState = false := by simpa using view
          dsimp only
          split
          case isTrue length =>
            refine (checkArguments_ensures lower (by simpa using length)).bind fun args? found => ?_
            obtain ⟨rfl, lower⟩ := found
            exact Ensures.pure ⟨_, rfl, .builtin hf hb view lower⟩
          case isFalse => exact Ensures.report_bind _ _ _
      | none => exact Ensures.report_bind _ _ _

theorem isNegatedLeast_eq {op : UnaryOp} {operand : Syntax.Expr}
    (h : isNegatedLeast op operand) : ∃ span, op = .neg ∧ operand = .int leastMagnitude span := by
  unfold isNegatedLeast at h
  split at h
  · exact ⟨_, rfl, by rw [eq_of_beq h]⟩
  · contradiction

mutual

/-- A checked expression is lowered by the rules. -/
theorem checkExpr_ensures : ∀ e : Syntax.Expr,
    Ensures (fun e? => ∃ e', e? = some e' ∧ ExprLowers env scope e e') (checkExpr env scope e)
  | .int value span => by
      rw [checkExpr]
      refine (Ensures.reportIf _ _ _).bind fun _ small => Ensures.pure ?_
      have small : value < leastMagnitude := by simpa using small
      exact ⟨_, if_pos small, .int small⟩
  | .bool value span => Ensures.pure ⟨_, rfl, .bool⟩
  | .name text span => checkName_ensures text span
  | .unary op operand span => by
      rw [checkExpr]
      split
      case isTrue negated =>
        obtain ⟨_, rfl, rfl⟩ := isNegatedLeast_eq negated
        exact Ensures.pure ⟨_, rfl, .least⟩
      case isFalse =>
        refine (checkExpr_ensures operand).bind fun e? checked => ?_
        obtain ⟨e, rfl, lowers⟩ := checked
        refine (expectType_ensures e (Lowered.unaryType op)).bind fun ok same => ?_
        obtain ⟨rfl, type⟩ := same
        exact Ensures.pure ⟨_, rfl, .unary lowers type⟩
  | .binary op lhs rhs span => by
      rw [checkExpr]
      refine (checkExpr_ensures lhs).bind fun l? left => ?_
      refine (checkExpr_ensures rhs).bind fun r? right => ?_
      obtain ⟨l, rfl, hl⟩ := left
      obtain ⟨r, rfl, hr⟩ := right
      refine (checkOperands_ensures op l.type r.type span).bind fun ok applies => ?_
      obtain ⟨rfl, operands⟩ := applies
      exact Ensures.pure ⟨_, rfl, .binary hl hr operands⟩
  | .call callee args span => by
      rw [checkExpr]
      refine (checkExprs_ensures args).bind fun lowered checked => ?_
      obtain ⟨es, rfl, lower⟩ := checked
      exact checkCall_ensures lower callee span

theorem checkExprs_ensures : ∀ args : List Syntax.Expr,
    Ensures (fun lowered => ∃ es : List Expr, lowered = es.map some ∧
      List.Forall₂ (ExprLowers env scope) args es) (checkExprs env scope args)
  | [] => Ensures.pure ⟨[], rfl, .nil⟩
  | e :: rest => by
      rw [checkExprs]
      refine (checkExpr_ensures e).bind fun e? first => ?_
      refine (checkExprs_ensures rest).bind fun es? others => ?_
      obtain ⟨e', rfl, lowers⟩ := first
      obtain ⟨es, rfl, lower⟩ := others
      exact Ensures.pure ⟨e' :: es, rfl, .cons lowers lower⟩

end

theorem checkCondition_ensures (cond : Syntax.Expr) :
    Ensures (fun c? => ∃ c, c? = some c ∧ ExprLowers env scope cond c ∧ c.type = .bool)
      (checkCondition env scope cond) := by
  refine (checkExpr_ensures cond).bind fun e? checked => ?_
  obtain ⟨e, rfl, lowers⟩ := checked
  refine (expectType_ensures e .bool).bind fun ok same => ?_
  obtain ⟨rfl, type⟩ := same
  exact Ensures.pure ⟨e, rfl, lowers, type⟩

theorem checkShadowing_ensures (storage : List Variable) (name : Name) :
    Ensures (fun _ => name.text ∉ storage.map (·.name)) (checkShadowing storage name) := by
  intro none
  have fresh := Ensures.reportIf _ _ _ none
  simpa [List.any_eq_false] using fresh

/-- What a checked statement is lowered to, with the scope behind it. -/
def StmtResult (env : Env) (scope : Scope) (s : Syntax.Stmt) (result : Option Stmt × Scope) :
    Prop :=
  ∃ s', result.1 = some s' ∧ StmtLowers env scope s s' result.2

theorem checkLet_ensures (name : Name) (ascribed : Option ValueType) (value : Syntax.Expr)
    (span : Span) : Ensures (StmtResult env scope (.letIn name ascribed value span))
      (checkLet env scope name ascribed value span) := by
  refine (checkShadowing_ensures _ _).bind fun _ fresh => ?_
  refine (checkExpr_ensures value).bind fun e? checked => ?_
  obtain ⟨e, rfl, lowers⟩ := checked
  cases ascribed with
  | none =>
      refine (Ensures.reportIf _ _ _).bind fun _ notUnit => Ensures.pure ?_
      have notUnit : e.type ≠ .unit := by simpa using notUnit
      exact ⟨_, rfl, .letIn fresh lowers (fun _ h => nomatch h) notUnit⟩
  | some type =>
      refine (expectType_ensures e type.ty).bind fun ok same => ?_
      obtain ⟨rfl, same⟩ := same
      refine (Ensures.reportIf _ _ _).bind fun _ notUnit => Ensures.pure ?_
      have notUnit : e.type ≠ .unit := by simpa [same] using notUnit
      have ascribed : ∀ type' ∈ some type, e.type = type'.ty := fun _ h => by cases h; exact same
      have lowers : StmtLowers env scope (.letIn name (some type) value span)
          (.letIn scope.locals.size e span) (scope.declare name.text type.ty) :=
        same ▸ .letIn fresh lowers ascribed notUnit
      exact ⟨_, rfl, lowers⟩

theorem checkAssign_ensures (target : Name) (value : Syntax.Expr) (span : Span) :
    Ensures (fun s? => ∃ s, s? = some s ∧ StmtLowers env scope (.assign target value span) s scope)
      (checkAssign env scope target value span) := by
  refine (checkExpr_ensures value).bind fun e? checked => ?_
  obtain ⟨e, rfl, lowers⟩ := checked
  cases hb : scope.lookup? target.text with
  | some b =>
      refine (expectType_ensures e b.type).bind fun _ same => Ensures.pure ?_
      exact ⟨_, rfl, .set hb lowers same.2⟩
  | none =>
      cases hs : env.slot? target.text with
      | none => exact Ensures.report_bind _ _ _
      | some found =>
          refine (Ensures.reportIf _ _ _).bind fun _ view => ?_
          refine (expectType_ensures e found.2).bind fun _ same => Ensures.pure ?_
          exact ⟨_, rfl, .store hb hs view lowers same.2⟩

theorem checkReturn_ensures (value : Option Syntax.Expr) (span : Span) :
    Ensures (fun s? => ∃ s, s? = some s ∧ StmtLowers env scope (.returns value span) s scope)
      (checkReturn env scope value span) := by
  cases value with
  | none =>
      refine (Ensures.reportIf _ _ _).bind fun _ unit => Ensures.pure ?_
      exact ⟨_, rfl, .returns (by simpa using unit)⟩
  | some value =>
      refine (checkExpr_ensures value).bind fun e? checked => ?_
      obtain ⟨e, rfl, lowers⟩ := checked
      dsimp only
      split
      case isTrue => exact Ensures.report_bind _ _ _
      case isFalse notUnit =>
        refine (expectType_ensures e env.result).bind fun _ same => Ensures.pure ?_
        exact ⟨_, rfl, .returnsValue lowers notUnit same.2⟩

mutual

/-- A checked statement is lowered by the rules. -/
theorem checkStmt_ensures : ∀ (s : Syntax.Stmt) (scope : Scope),
    Ensures (StmtResult env scope s) (checkStmt env scope s)
  | .letIn name ascribed value span, scope => checkLet_ensures name ascribed value span
  | .assign target value span, scope => by
      rw [checkStmt]
      exact (checkAssign_ensures target value span).bind fun _ checked => Ensures.pure checked
  | .ifThen cond yes no span, scope => by
      rw [checkStmt]
      refine (checkCondition_ensures cond).bind fun c? checked => ?_
      obtain ⟨c, rfl, lowers, type⟩ := checked
      refine (checkBlock_ensures yes scope).bind fun onYes yesLowers => ?_
      cases no with
      | none => exact Ensures.pure ⟨_, rfl, .ifThen lowers type yesLowers⟩
      | some no =>
          refine (checkBlock_ensures no onYes.2).bind fun onNo noLowers => ?_
          exact Ensures.pure ⟨_, rfl, .ifElse lowers type yesLowers noLowers⟩
  | .whileDo cond body span, scope => by
      rw [checkStmt]
      refine (checkCondition_ensures cond).bind fun c? checked => ?_
      obtain ⟨c, rfl, lowers, type⟩ := checked
      refine (checkBlock_ensures body scope).bind fun round bodyLowers => ?_
      exact Ensures.pure ⟨_, rfl, .whileDo lowers type bodyLowers⟩
  | .returns value span, scope => by
      rw [checkStmt]
      exact (checkReturn_ensures value span).bind fun _ checked => Ensures.pure checked
  | .require cond span, scope => by
      rw [checkStmt]
      refine (checkCondition_ensures cond).bind fun c? checked => ?_
      obtain ⟨c, rfl, lowers, type⟩ := checked
      exact Ensures.pure ⟨_, rfl, .require lowers type⟩
  | .eval value span, scope => by
      rw [checkStmt]
      refine (checkExpr_ensures value).bind fun e? checked => ?_
      obtain ⟨e, rfl, lowers⟩ := checked
      exact Ensures.pure ⟨_, rfl, .eval lowers⟩

theorem checkBlock_ensures : ∀ (b : Syntax.Block) (scope : Scope),
    Ensures (fun result => BlockLowers env scope b result.1 result.2) (checkBlock env scope b)
  | .mk stmts span, scope => by
      rw [checkBlock]
      exact (checkStmts_ensures stmts scope.enter).bind fun _ lower => Ensures.pure (.mk lower)

theorem checkStmts_ensures : ∀ (body : List Syntax.Stmt) (scope : Scope),
    Ensures (fun result => StmtsLower env scope body result.1 result.2)
      (checkStmts env scope body)
  | [], scope => Ensures.pure .nil
  | s :: rest, scope => by
      rw [checkStmts]
      refine (checkStmt_ensures s scope).bind fun first lowers => ?_
      refine (checkStmts_ensures rest first.2).bind fun others lower => Ensures.pure ?_
      obtain ⟨s', same, lowers⟩ := lowers
      rw [same]
      exact .cons lowers lower

end

end

theorem checkParams_ensures (storage : List Variable) (params : List Syntax.Param)
    (scope : Scope) :
    Ensures (ParamsLower storage scope params) (checkParams storage params scope) := by
  induction params generalizing scope with
  | nil => exact Ensures.pure .nil
  | cons p rest ih =>
      refine (Ensures.reportIf _ _ _).bind fun _ new => ?_
      refine (checkShadowing_ensures _ _).bind fun _ fresh => ?_
      exact fun none => .cons (by simpa using new) fresh (ih _ none)

theorem checkFallThrough_ensures {decl : Syntax.FunctionDecl} {body : Checked (List Stmt × Scope)}
    (none : body.problems = []) :
    Ensures (fun _ => Ty.ofResult decl.result ≠ .unit → Stmt.anyDiverges body.value.1)
      (checkFallThrough decl body) := by
  intro passed notUnit
  have passed := Ensures.reportIf _ _ _ passed
  simpa [none, notUnit] using passed

theorem checkFunction_ensures (storage : List Variable) (signatures : List Signature)
    (decl : Syntax.FunctionDecl) : Ensures (FunctionLowers storage signatures decl)
      (checkFunction storage signatures decl) := by
  refine (checkParams_ensures storage decl.params ⟨#[], [[]]⟩).bind fun scope params => ?_
  intro none
  simp only [Checked.problems_bind, Checked.problems_pure, List.append_nil,
    List.append_eq_nil_iff] at none
  exact .mk params (checkBlock_ensures decl.body scope none.1)
    (checkFallThrough_ensures none.1 none.2)

theorem checkFunctions_ensures (storage : List Variable) (signatures : List Signature)
    (decls : List Syntax.FunctionDecl) :
    Ensures (List.Forall₂ (FunctionLowers storage signatures) decls)
      (checkFunctions storage signatures decls) := by
  induction decls with
  | nil => exact Ensures.pure .nil
  | cons decl rest ih =>
      refine (checkFunction_ensures storage signatures decl).bind fun f first => ?_
      exact ih.bind fun fs others => Ensures.pure (.cons first others)

theorem checkStorage_ensures (done : List Variable) (decls : List Syntax.StorageDecl) :
    Ensures (fun result => result = done ++ decls.map variableOf ∧
        ((done.map (·.name)).Nodup → (result.map (·.name)).Nodup)) (checkStorage done decls) := by
  induction decls generalizing done with
  | nil => exact Ensures.pure ⟨by simp, id⟩
  | cons d rest ih =>
      refine (Ensures.reportIf _ _ _).bind fun _ once none => ?_
      rw [once] at none ⊢
      obtain ⟨value, nodup⟩ := ih _ none
      refine ⟨by simpa [variableOf] using value, fun before => nodup ?_⟩
      have new : d.name.text ∉ done.map (·.name) := by simpa [List.any_eq_false] using once
      simpa [List.nodup_append, before] using new

theorem checkFunctionNames_ensures (done decls : List Syntax.FunctionDecl) :
    Ensures (fun result => result = done.reverse ++ decls ∧
        ((done.map (·.name.text)).Nodup → (result.map (·.name.text)).Nodup) ∧
        ∀ f ∈ decls, Builtin.ofCallName? f.name.text = none) (checkFunctionNames done decls) := by
  induction decls generalizing done with
  | nil => exact Ensures.pure ⟨by simp, by simp [List.nodup_reverse], fun _ h => nomatch h⟩
  | cons f rest ih =>
      rw [checkFunctionNames]
      split
      case isTrue => exact Ensures.report_bind _ _ _
      case isFalse once =>
        split
        case isTrue => exact Ensures.report_bind _ _ _
        case isFalse noBuiltin =>
          intro none
          obtain ⟨value, nodup, others⟩ := ih _ none
          refine ⟨by simpa using value, fun before => nodup ?_,
            List.forall_mem_cons.2 ⟨by simpa using noBuiltin, others⟩⟩
          have new : f.name.text ∉ done.map (·.name.text) := by simpa using once
          exact List.nodup_cons.2 ⟨new, before⟩

/-- A checked contract is lowered by the rules. -/
theorem checkContract_ensures (source : Syntax.Contract) :
    Ensures (ContractLowers source) (checkContract source) := by
  refine (checkStorage_ensures [] source.storage).bind fun storage found => ?_
  refine (checkFunctionNames_ensures [] source.functions).bind fun declared names => ?_
  obtain ⟨rfl, storageNodup⟩ := found
  obtain ⟨rfl, functionsNodup, noBuiltin⟩ := names
  refine (checkFunctions_ensures _ _ _).bind fun functions lower => Ensures.pure ?_
  exact ⟨by simpa [variableOf, Function.comp_def] using storageNodup,
    by simpa using functionsNodup, noBuiltin, lower, rfl, rfl, rfl⟩

/-! ### What follows by the rules passes the check -/

theorem expectType_eq {e : Expr} {expected : Ty} (same : e.type = expected) :
    expectType e expected = pure true := by
  simp [expectType, same]

theorem checkOperands_eq {op : BinaryOp} {left right : Ty} (h : Lowered.Operands op left right)
    (span : Span) : checkOperands op left right span = pure true := by
  cases op
  case eq | ne =>
    obtain ⟨rfl, has⟩ := h
    have notUnit : (left != .unit) = true := by cases left <;> first | rfl | contradiction
    simp [checkOperands, operandType?, notUnit]
  all_goals
    obtain ⟨rfl, rfl⟩ := h
    simp [checkOperands, operandType?]

section

variable {env : Env} {scope : Scope}

theorem checkArguments_eq {args : List Syntax.Expr} {es : List Expr} {types : List Ty}
    (lower : ArgsLower env scope args es types) :
    checkArguments (es.map some) types = pure (some es) := by
  induction es generalizing args types with
  | nil => cases lower; rfl
  | cons e es ih =>
      cases lower with
      | cons _ others =>
          rw [List.map_cons, checkArguments, expectType_eq rfl, pure_bind, ih others]
          rfl

theorem ArgsLower.length_eq {args : List Syntax.Expr} {es : List Expr} {types : List Ty}
    (lower : ArgsLower env scope args es types) : types.length = es.length := by
  induction es generalizing args types with
  | nil => cases lower; rfl
  | cons e es ih =>
      cases lower with
      | cons _ others => simp [ih others]

/-- A literal that fits only with its sign is not lowered on its own. -/
theorem ExprLowers.isNegatedLeast_eq {e : Syntax.Expr} {e' : Expr}
    (lowers : ExprLowers env scope e e') (op : UnaryOp) : isNegatedLeast op e = false := by
  cases lowers with
  | int small => cases op <;> simp [isNegatedLeast, Nat.ne_of_lt small]
  | _ => cases op <;> rfl

mutual

/-- An expression that is lowered by the rules is lowered so by the check. -/
theorem ExprLowers.checkExpr_eq : ∀ {e : Syntax.Expr} {e' : Expr}, ExprLowers env scope e e' →
    checkExpr env scope e = pure (some e')
  | _, _, .int small => by simp [checkExpr, checkLiteral, small, Nat.not_le.2 small]
  | _, _, .bool => by rw [checkExpr]
  | _, _, .var found => by simp [checkExpr, checkName, found]
  | _, _, .slot hidden found => by simp [checkExpr, checkName, hidden, found]
  | _, _, .least => by simp [checkExpr, isNegatedLeast]
  | _, _, .unary lowers type => by
      rw [checkExpr, lowers.isNegatedLeast_eq, lowers.checkExpr_eq]
      simp [expectType_eq type]
  | _, _, .binary left right operands => by
      rw [checkExpr, left.checkExpr_eq, pure_bind, right.checkExpr_eq, pure_bind]
      simp [checkOperands_eq operands]
  | _, _, @ExprLowers.call _ _ _ _ _ _ sig _ found view lower => by
      have view : (env.isView && !sig.isView) = false := by simpa using view
      rw [checkExpr, lower.checkExprs_eq, pure_bind]
      simp [checkCall, found, view, lower.length_eq, checkArguments_eq lower]
  | _, _, @ExprLowers.builtin _ _ _ _ _ kind _ unknown found view lower => by
      have view : (env.isView && kind.changesState) = false := by simpa using view
      rw [checkExpr, lower.checkExprs_eq, pure_bind]
      simp [checkCall, unknown, found, view, lower.length_eq, checkArguments_eq lower]

theorem ArgsLower.checkExprs_eq : ∀ {args : List Syntax.Expr} {es : List Expr} {types : List Ty},
    ArgsLower env scope args es types → checkExprs env scope args = pure (es.map some)
  | _, _, _, .nil => by rw [checkExprs]; rfl
  | _, _, _, .cons first others => by
      rw [checkExprs, first.checkExpr_eq, pure_bind, others.checkExprs_eq, pure_bind, List.map_cons]

end

theorem ExprLowers.checkCondition_eq {cond : Syntax.Expr} {c : Expr}
    (lowers : ExprLowers env scope cond c) (type : c.type = .bool) :
    checkCondition env scope cond = pure (some c) := by
  simp [checkCondition, lowers.checkExpr_eq, expectType_eq type]

theorem checkShadowing_eq {storage : List Variable} {name : Name}
    (fresh : name.text ∉ storage.map (·.name)) : checkShadowing storage name = pure () := by
  refine Checked.reportIf_eq ?_ _ _
  simpa [List.any_eq_false] using fresh

theorem checkLet_eq {name : Name} {ascribed : Option ValueType} {value : Syntax.Expr} {e : Expr}
    (fresh : name.text ∉ env.storage.map (·.name)) (lowers : ExprLowers env scope value e)
    (fits : ∀ type ∈ ascribed, e.type = type.ty) (notUnit : e.type ≠ .unit) (span : Span) :
    checkLet env scope name ascribed value span =
      pure (some (.letIn scope.locals.size e span), scope.declare name.text e.type) := by
  rw [checkLet, checkShadowing_eq fresh, pure_bind, lowers.checkExpr_eq, pure_bind]
  cases ascribed with
  | none => simp [notUnit]
  | some type =>
      have same := fits type rfl
      simp [expectType_eq, ← same, notUnit]

mutual

/-- A statement that is lowered by the rules is lowered so by the check. -/
theorem StmtLowers.checkStmt_eq : ∀ {scope : Scope} {s : Syntax.Stmt} {s' : Stmt} {scope' : Scope},
    StmtLowers env scope s s' scope' → checkStmt env scope s = pure (some s', scope')
  | _, _, _, _, .letIn fresh lowers fits notUnit => checkLet_eq fresh lowers fits notUnit _
  | _, _, _, _, .set found lowers type => by
      simp [checkStmt, checkAssign, found, lowers.checkExpr_eq, expectType_eq type]
  | _, _, _, _, .store hidden found view lowers type => by
      simp [checkStmt, checkAssign, hidden, found, view, lowers.checkExpr_eq, expectType_eq type]
  | _, _, _, _, .ifThen lowers type yes => by
      simp [checkStmt, lowers.checkCondition_eq type, yes.checkBlock_eq]
  | _, _, _, _, .ifElse lowers type yes no => by
      simp [checkStmt, lowers.checkCondition_eq type, yes.checkBlock_eq, no.checkBlock_eq]
  | _, _, _, _, .whileDo lowers type body => by
      simp [checkStmt, lowers.checkCondition_eq type, body.checkBlock_eq]
  | _, _, _, _, .returns unit => by simp [checkStmt, checkReturn, unit]
  | _, _, _, _, .returnsValue lowers notUnit type => by
      simp [checkStmt, checkReturn, lowers.checkExpr_eq, notUnit, expectType_eq type]
  | _, _, _, _, .require lowers type => by
      simp [checkStmt, lowers.checkCondition_eq type]
  | _, _, _, _, .eval lowers => by simp [checkStmt, lowers.checkExpr_eq]

theorem BlockLowers.checkBlock_eq : ∀ {scope : Scope} {b : Syntax.Block} {body : List Stmt}
    {scope' : Scope}, BlockLowers env scope b body scope' →
    checkBlock env scope b = pure (body, scope')
  | _, _, _, _, .mk lower => by simp [checkBlock, lower.checkStmts_eq]

theorem StmtsLower.checkStmts_eq : ∀ {scope : Scope} {stmts : List Syntax.Stmt} {body : List Stmt}
    {scope' : Scope}, StmtsLower env scope stmts body scope' →
    checkStmts env scope stmts = pure (body, scope')
  | _, _, _, _, .nil => by rw [checkStmts]
  | _, _, _, _, .cons first others => by
      simp [checkStmts, first.checkStmt_eq, others.checkStmts_eq]

end

end

theorem ParamsLower.checkParams_eq {storage : List Variable} {scope scope' : Scope}
    {params : List Syntax.Param} (lower : ParamsLower storage scope params scope') :
    checkParams storage params scope = pure scope' := by
  induction lower with
  | nil => rfl
  | cons new fresh _ ih => simp [checkParams, new, checkShadowing_eq fresh, ih]

theorem FunctionLowers.checkFunction_eq {storage : List Variable} {signatures : List Signature}
    {decl : Syntax.FunctionDecl} {f : Function}
    (lowers : FunctionLowers storage signatures decl f) :
    checkFunction storage signatures decl = pure f := by
  obtain @⟨scope, inner, body, params, block, returns⟩ := lowers
  have checked := block.checkBlock_eq
  have passes : checkFallThrough decl (pure (body, inner)) = pure () := by
    by_cases unit : Ty.ofResult decl.result = .unit
    · simp [checkFallThrough, unit]
    · simp [checkFallThrough, returns unit]
  rw [Env.ofDecl] at checked
  simp only [checkFunction, params.checkParams_eq, pure_bind, checked, passes]

theorem checkFunctions_eq {storage : List Variable} {signatures : List Signature}
    {decls : List Syntax.FunctionDecl} {fs : List Function}
    (lower : List.Forall₂ (FunctionLowers storage signatures) decls fs) :
    checkFunctions storage signatures decls = pure fs := by
  induction lower with
  | nil => rfl
  | cons first _ ih => simp [checkFunctions, first.checkFunction_eq, ih]

theorem checkStorage_eq (done : List Variable) (decls : List Syntax.StorageDecl)
    (nodup : ((done ++ decls.map variableOf).map (·.name)).Nodup) :
    checkStorage done decls = pure (done ++ decls.map variableOf) := by
  induction decls generalizing done with
  | nil => simp [checkStorage]
  | cons d rest ih =>
      have apart := nodup
      rw [List.map_append, List.nodup_append] at apart
      have new : (done.any fun v => v.name == d.name.text) = false := by
        rw [List.any_eq_false]
        intro v hv
        simpa using apart.2.2 v.name (List.mem_map_of_mem hv) d.name.text List.mem_cons_self
      have rest := ih (done ++ [variableOf d]) (by simpa using nodup)
      simpa [checkStorage, new, variableOf] using rest

theorem checkFunctionNames_eq (done decls : List Syntax.FunctionDecl)
    (nodup : ((done.reverse ++ decls).map (·.name.text)).Nodup)
    (noBuiltin : ∀ f ∈ decls, Builtin.ofCallName? f.name.text = none) :
    checkFunctionNames done decls = pure (done.reverse ++ decls) := by
  induction decls generalizing done with
  | nil => simp [checkFunctionNames]
  | cons f rest ih =>
      obtain ⟨first, others⟩ := List.forall_mem_cons.1 noBuiltin
      have apart := nodup
      rw [List.map_append, List.nodup_append] at apart
      have new : (done.any fun g => g.name.text == f.name.text) = false := by
        rw [List.any_eq_false]
        intro g hg
        simpa using apart.2.2 g.name.text (List.mem_map_of_mem (List.mem_reverse.2 hg))
          f.name.text List.mem_cons_self
      have rest := ih (f :: done) (by simpa using nodup) others
      simpa [checkFunctionNames, new, first] using rest

/-- What a contract is lowered to by the rules is what the check gives, without a problem. -/
theorem checkContract_eq_pure_iff {source : Syntax.Contract} {c : Contract} :
    checkContract source = pure c ↔ ContractLowers source c := by
  constructor
  · intro h
    have lowers := checkContract_ensures source (by rw [h]; rfl)
    rwa [h] at lowers
  · intro lowers
    obtain ⟨name, storage, functions, span⟩ := c
    obtain ⟨storageNodup, functionsNodup, noBuiltin, lower, rfl, rfl, rfl⟩ := lowers
    have checked := checkStorage_eq [] source.storage
      (by simpa [variableOf, Function.comp_def] using storageNodup)
    have declared := checkFunctionNames_eq [] source.functions (by simpa using functionsNodup)
      noBuiltin
    have lowered := checkFunctions_eq lower
    rw [storageOf, signaturesOf] at lowered
    simp [checkContract, checked, declared, lowered, storageOf]

end Workbench.Check
