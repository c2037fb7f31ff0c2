import Workbench.Lowered.Basic

/-!
# Typing of the lowered form

What a checked contract promises to everything that comes after the check: operands and arguments
have the types that their operators and callees ask for, references point at declarations of the
type that they carry, and a variable is only read where it has been given a value. The last is a
matter of position. A list of the variables that have a value is handed along the statements of a
block, and what a nested block adds to it ends with that block.
-/

namespace Workbench.Lowered

open Source (Span)
open Lang (Ty UnaryOp BinaryOp Builtin Word)

/-! ### Induction

Expressions and statements are nested in lists of themselves; the hypothesis for such a list is one
for each of its members. -/

@[elab_as_elim, induction_eliminator]
theorem Expr.induction {motive : Expr → Prop}
    (int : ∀ value span, motive (.int value span))
    (bool : ∀ value span, motive (.bool value span))
    (var : ∀ index type span, motive (.var index type span))
    (slot : ∀ index type span, motive (.slot index type span))
    (unary : ∀ op operand span, motive operand → motive (.unary op operand span))
    (binary : ∀ op lhs rhs span, motive lhs → motive rhs → motive (.binary op lhs rhs span))
    (shl : ∀ value amount span, motive value → motive (.shl value amount span))
    (call : ∀ function args result span, (∀ a ∈ args, motive a) →
      motive (.call function args result span))
    (builtin : ∀ kind args span, (∀ a ∈ args, motive a) → motive (.builtin kind args span))
    (e : Expr) : motive e :=
  @Expr.rec motive (fun es => ∀ a ∈ es, motive a) int bool var slot unary binary shl call builtin
    (fun _ h => nomatch h) (fun _ _ first rest => List.forall_mem_cons.2 ⟨first, rest⟩) e

@[elab_as_elim, induction_eliminator]
theorem Stmt.induction {motive : Stmt → Prop}
    (letIn : ∀ index value span, motive (.letIn index value span))
    (set : ∀ index value span, motive (.set index value span))
    (store : ∀ slot value span, motive (.store slot value span))
    (ifThen : ∀ cond yes no span, (∀ s ∈ yes, motive s) → (∀ s ∈ no, motive s) →
      motive (.ifThen cond yes no span))
    (whileDo : ∀ cond body span, (∀ s ∈ body, motive s) → motive (.whileDo cond body span))
    (returns : ∀ value span, motive (.returns value span))
    (require : ∀ cond span, motive (.require cond span))
    (eval : ∀ value span, motive (.eval value span))
    (s : Stmt) : motive s :=
  @Stmt.rec motive (fun body => ∀ s ∈ body, motive s) letIn set store ifThen whileDo returns require
    eval (fun _ h => nomatch h) (fun _ _ first rest => List.forall_mem_cons.2 ⟨first, rest⟩) s

/-! ### Contexts -/

/-- The types of the parameters and of the result of a function. -/
structure Signature where
  params : List Ty
  result : Ty

def Function.signature (f : Function) : Signature :=
  ⟨f.params.map (·.type), f.result⟩

/-- The types of everything that the code of a function can refer to. -/
structure Context where
  storage : List Ty
  signatures : List Signature
  locals : List Ty
  /-- The result type of the function. -/
  result : Ty

def Contract.context (c : Contract) (f : Function) : Context :=
  ⟨c.storage.map (·.type), c.functions.map (·.signature), f.locals.map (·.type), f.result⟩

/-! ### Expressions -/

/-- An operator applies to operands of two types. -/
def Operands (op : BinaryOp) (left right : Ty) : Prop :=
  match op with
  | .eq | .ne => left = right ∧ left.hasValue
  | .and | .or => left = .bool ∧ right = .bool
  | .add | .sub | .mul | .div | .rem | .lt | .le | .gt | .ge => left = .i32 ∧ right = .i32

theorem Operands.hasValue {op : BinaryOp} {left right : Ty} (h : Operands op left right) :
    left.hasValue ∧ right.hasValue := by
  cases op <;> obtain ⟨hl, hr⟩ := h <;> simp_all [Ty.hasValue]

@[simp] theorem hasValue_unaryType (op : UnaryOp) : (unaryType op).hasValue := by
  cases op <;> rfl

@[simp] theorem hasValue_binaryType (op : BinaryOp) : (binaryType op).hasValue := by
  cases op <;> rfl

mutual

/-- An expression is typed where the listed variables have a value. -/
def Expr.Typed (Γ : Context) (live : List Nat) : Expr → Prop
  | .int .. | .bool .. => True
  | .var index type _ => index ∈ live ∧ Γ.locals[index]? = some type ∧ type.hasValue
  | .slot index type _ => Γ.storage[index]? = some type ∧ type.hasValue
  | .unary op operand _ => operand.Typed Γ live ∧ operand.type = unaryType op
  | .binary op lhs rhs _ =>
      lhs.Typed Γ live ∧ rhs.Typed Γ live ∧ Operands op lhs.type rhs.type
  | .shl value amount _ => value.Typed Γ live ∧ value.type = .i32 ∧ amount < 32
  | .call function args result _ =>
      ∃ params, Γ.signatures[function]? = some ⟨params, result⟩ ∧ ArgsTyped Γ live args params
  | .builtin kind args _ => kind.callName?.isSome ∧ ArgsTyped Γ live args kind.params

/-- Arguments are typed and have the types of the parameters. -/
def ArgsTyped (Γ : Context) (live : List Nat) : List Expr → List Ty → Prop
  | [], [] => True
  | e :: es, t :: ts => (e.Typed Γ live ∧ e.type = t ∧ t.hasValue) ∧ ArgsTyped Γ live es ts
  | _, _ => False

end

/-! ### Statements -/

/-- The variables to which a statement gives a value for the statements behind it. -/
def Stmt.declares : Stmt → List Nat
  | .letIn index _ _ => [index]
  | _ => []

/-- The variables with a value behind statements. -/
def liveAfter (live : List Nat) : List Stmt → List Nat
  | [] => live
  | s :: rest => liveAfter (s.declares ++ live) rest

/-- An expression is typed and has a given type. -/
def Expr.Has (Γ : Context) (live : List Nat) (type : Ty) (e : Expr) : Prop :=
  e.Typed Γ live ∧ e.type = type

mutual

/-- A statement is typed where the listed variables have a value. -/
def Stmt.Typed (Γ : Context) (live : List Nat) : Stmt → Prop
  | .letIn index value _ | .set index value _ =>
      value.Typed Γ live ∧ Γ.locals[index]? = some value.type ∧ value.type.hasValue
  | .store slot value _ =>
      value.Typed Γ live ∧ Γ.storage[slot]? = some value.type ∧ value.type.hasValue
  | .ifThen cond yes no _ =>
      cond.Has Γ live .bool ∧ StmtsTyped Γ live yes ∧ StmtsTyped Γ live no
  | .whileDo cond body _ => cond.Has Γ live .bool ∧ StmtsTyped Γ live body
  | .returns none _ => Γ.result = .unit
  | .returns (some value) _ => value.Has Γ live Γ.result ∧ Γ.result.hasValue
  | .require cond _ => cond.Has Γ live .bool
  | .eval value _ => value.Typed Γ live

/-- Statements are typed in order. -/
def StmtsTyped (Γ : Context) (live : List Nat) : List Stmt → Prop
  | [] => True
  | s :: rest => s.Typed Γ live ∧ StmtsTyped Γ (s.declares ++ live) rest

end

/-! ### Declarations -/

/-- A function of a contract is typed. -/
structure Contract.TypedFunction (c : Contract) (f : Function) : Prop where
  paramCount_le : f.paramCount ≤ f.locals.length
  params : ∀ v ∈ f.params, v.type.hasValue
  body : StmtsTyped (c.context f) (List.range f.paramCount) f.body
  /-- A function that owes a value does not come to the end of its body. -/
  returns : f.result.hasValue → Stmt.anyDiverges f.body

/-- All functions of a contract are typed. -/
def Contract.Typed (c : Contract) : Prop :=
  ∀ f ∈ c.functions, c.TypedFunction f

theorem Function.length_params {c : Contract} {f : Function} (h : c.TypedFunction f) :
    f.params.length = f.paramCount := by
  simp [Function.params, h.paramCount_le]

theorem Function.length_signature {c : Contract} {f : Function} (h : c.TypedFunction f) :
    f.signature.params.length = f.paramCount := by
  rw [Function.signature, List.length_map, Function.length_params h]

/-! ### Arguments -/

/-- Induction over typed arguments together with the types of the parameters. -/
theorem ArgsTyped.induction {Γ : Context} {live : List Nat}
    {motive : (args : List Expr) → (params : List Ty) → ArgsTyped Γ live args params → Prop}
    (nil : motive [] [] trivial)
    (cons : ∀ {e : Expr} {es : List Expr} {ts : List Ty} (first : e.Typed Γ live)
      (has : e.type.hasValue) (rest : ArgsTyped Γ live es ts), motive es ts rest →
      motive (e :: es) (e.type :: ts) ⟨⟨first, rfl, has⟩, rest⟩)
    {args : List Expr} {params : List Ty} (h : ArgsTyped Γ live args params) :
    motive args params h := by
  induction args generalizing params with
  | nil =>
      cases params with
      | nil => exact nil
      | cons t ts => exact h.elim
  | cons e es ih =>
      cases params with
      | nil => exact h.elim
      | cons t ts =>
          obtain ⟨⟨first, rfl, has⟩, rest⟩ := h
          exact cons first has rest (ih rest)

theorem ArgsTyped.length_eq {Γ : Context} {live : List Nat} {args : List Expr} {params : List Ty}
    (h : ArgsTyped Γ live args params) : args.length = params.length := by
  induction h using ArgsTyped.induction with
  | nil => rfl
  | cons first has rest ih => rw [List.length_cons, List.length_cons, ih]

theorem ArgsTyped.hasValue {Γ : Context} {live : List Nat} {args : List Expr} {params : List Ty}
    (h : ArgsTyped Γ live args params) : ∀ a ∈ args, a.type.hasValue := by
  induction h using ArgsTyped.induction with
  | nil => exact fun _ h => nomatch h
  | cons first has rest ih => exact List.forall_mem_cons.2 ⟨has, ih⟩

theorem ArgsTyped.typed_of_mem {Γ : Context} {live : List Nat} {args : List Expr}
    {params : List Ty} (h : ArgsTyped Γ live args params) : ∀ a ∈ args, a.Typed Γ live := by
  induction h using ArgsTyped.induction with
  | nil => exact fun _ h => nomatch h
  | cons first has rest ih => exact List.forall_mem_cons.2 ⟨first, ih⟩

/-! ### More variables with a value -/

theorem ArgsTyped.weaken {Γ : Context} {live live' : List Nat} {args : List Expr}
    {params : List Ty} (each : ∀ a ∈ args, a.Typed Γ live → a.Typed Γ live')
    (h : ArgsTyped Γ live args params) : ArgsTyped Γ live' args params := by
  induction h using ArgsTyped.induction with
  | nil => trivial
  | cons first has rest ih =>
      obtain ⟨weaken, others⟩ := List.forall_mem_cons.1 each
      exact ⟨⟨weaken first, rfl, has⟩, ih others⟩

/-- What is typed stays so where more variables have a value. -/
theorem Expr.Typed.weaken {Γ : Context} {live live' : List Nat} (sub : live ⊆ live') {e : Expr}
    (h : e.Typed Γ live) : e.Typed Γ live' := by
  induction e with
  | int value span => trivial
  | bool value span => trivial
  | var index type span => exact ⟨sub h.1, h.2⟩
  | slot index type span => exact h
  | unary op operand span ih => exact ⟨ih h.1, h.2⟩
  | binary op lhs rhs span ihl ihr => exact ⟨ihl h.1, ihr h.2.1, h.2.2⟩
  | shl value amount span ih => exact ⟨ih h.1, h.2⟩
  | call function args result span ih =>
      obtain ⟨params, declared, args⟩ := h
      exact ⟨params, declared, args.weaken ih⟩
  | builtin kind args span ih => exact ⟨h.1, h.2.weaken ih⟩

theorem Expr.Has.weaken {Γ : Context} {live live' : List Nat} (sub : live ⊆ live') {type : Ty}
    {e : Expr} (h : e.Has Γ live type) : e.Has Γ live' type :=
  ⟨h.1.weaken sub, h.2⟩

theorem Stmt.declares_append_subset {live live' : List Nat} (sub : live ⊆ live') (s : Stmt) :
    s.declares ++ live ⊆ s.declares ++ live' := by
  intro i hi
  rcases List.mem_append.1 hi with declared | known
  · exact List.mem_append_left _ declared
  · exact List.mem_append_right _ (sub known)

theorem StmtsTyped.weaken_of_forall {Γ : Context} {body : List Stmt}
    (each : ∀ s ∈ body, ∀ live live', live ⊆ live' → s.Typed Γ live → s.Typed Γ live')
    {live live' : List Nat} (sub : live ⊆ live') (h : StmtsTyped Γ live body) :
    StmtsTyped Γ live' body := by
  induction body generalizing live live' with
  | nil => trivial
  | cons s rest ih =>
      obtain ⟨first, others⟩ := List.forall_mem_cons.1 each
      exact ⟨first live live' sub h.1, ih others (s.declares_append_subset sub) h.2⟩

theorem Stmt.Typed.weaken {Γ : Context} {s : Stmt} :
    ∀ live live', live ⊆ live' → s.Typed Γ live → s.Typed Γ live' := by
  induction s with
  | letIn index value span => exact fun _ _ sub h => ⟨h.1.weaken sub, h.2⟩
  | set index value span => exact fun _ _ sub h => ⟨h.1.weaken sub, h.2⟩
  | store slot value span => exact fun _ _ sub h => ⟨h.1.weaken sub, h.2⟩
  | ifThen cond yes no span ihy ihn =>
      intro live live' sub h
      exact ⟨h.1.weaken sub, .weaken_of_forall ihy sub h.2.1, .weaken_of_forall ihn sub h.2.2⟩
  | whileDo cond body span ih =>
      intro live live' sub h
      exact ⟨h.1.weaken sub, .weaken_of_forall ih sub h.2⟩
  | returns value span =>
      intro live live' sub h
      cases value with
      | none => exact h
      | some value => exact ⟨h.1.weaken sub, h.2⟩
  | require cond span => exact fun _ _ sub h => Expr.Has.weaken sub h
  | eval value span => exact fun _ _ sub h => Expr.Typed.weaken sub h

theorem StmtsTyped.weaken {Γ : Context} {body : List Stmt} {live live' : List Nat}
    (sub : live ⊆ live') (h : StmtsTyped Γ live body) : StmtsTyped Γ live' body :=
  weaken_of_forall (fun _ _ => Stmt.Typed.weaken) sub h

/-! ### Statements behind statements -/

theorem subset_liveAfter (live : List Nat) (body : List Stmt) : live ⊆ liveAfter live body := by
  induction body generalizing live with
  | nil => exact fun _ h => h
  | cons s rest ih => exact fun _ h => ih _ (List.mem_append_right _ h)

theorem StmtsTyped.append {Γ : Context} {live : List Nat} {first rest : List Stmt}
    (hf : StmtsTyped Γ live first) (hr : StmtsTyped Γ (liveAfter live first) rest) :
    StmtsTyped Γ live (first ++ rest) := by
  induction first generalizing live with
  | nil => exact hr
  | cons s first ih => exact ⟨hf.1, ih hf.2 hr⟩

end Workbench.Lowered
