import Workbench.Lang.Builtin
import Workbench.Syntax.Tree

/-!
# The rules of the language

Which contracts are well formed, told of the text alone: no rule mentions how a contract is checked
or lowered. Names are looked up among the variables in sight, the innermost and newest first, and
then among the storage variables; functions may be called wherever they are declared.

A rule for a statement names the variables in sight behind it. What a block declares is in sight to
its end.
-/

namespace Workbench.Syntax

open Source (Span)
open Lang (Ty ValueType UnaryOp BinaryOp Builtin)

/-- What the rules for a body depend on: the contract around it, what it has to give and whether the
function promises to change nothing. -/
structure Setting where
  contract : Contract
  result : Ty
  isView : Bool

/-- The variables in sight with their types, the innermost and newest first. -/
abbrev Sight := List (String × Ty)

/-! ### Expressions -/

mutual

/-- An expression has a type. -/
inductive Expr.Has (S : Setting) (Γ : Sight) : Expr → Ty → Prop
  /-- A literal fits into thirty-one bits. -/
  | int {value : Nat} {span : Span} : value < 2147483648 → Expr.Has S Γ (.int value span) .i32
  | bool {value : Bool} {span : Span} : Expr.Has S Γ (.bool value span) .bool
  | var {text : String} {span : Span} {type : Ty} : Γ.lookup text = some type →
      Expr.Has S Γ (.name text span) type
  | storage {d : StorageDecl} {span : Span} : Γ.lookup d.name.text = none →
      d ∈ S.contract.storage → Expr.Has S Γ (.name d.name.text span) d.type.ty
  /-- The magnitude that only fits with its sign. -/
  | least {inner span : Span} : Expr.Has S Γ (.unary .neg (.int 2147483648 inner) span) .i32
  | neg {e : Expr} {span : Span} : Expr.Has S Γ e .i32 → Expr.Has S Γ (.unary .neg e span) .i32
  | not {e : Expr} {span : Span} : Expr.Has S Γ e .bool → Expr.Has S Γ (.unary .not e span) .bool
  | arithmetic {op : BinaryOp} {l r : Expr} {span : Span} :
      op ∈ [.add, .sub, .mul, .div, .rem] → Expr.Has S Γ l .i32 → Expr.Has S Γ r .i32 →
      Expr.Has S Γ (.binary op l r span) .i32
  | order {op : BinaryOp} {l r : Expr} {span : Span} :
      op ∈ [.lt, .le, .gt, .ge] → Expr.Has S Γ l .i32 → Expr.Has S Γ r .i32 →
      Expr.Has S Γ (.binary op l r span) .bool
  | equality {op : BinaryOp} {l r : Expr} {type : Ty} {span : Span} :
      op ∈ [.eq, .ne] → type ≠ .unit → Expr.Has S Γ l type → Expr.Has S Γ r type →
      Expr.Has S Γ (.binary op l r span) .bool
  | logic {op : BinaryOp} {l r : Expr} {span : Span} :
      op ∈ [.and, .or] → Expr.Has S Γ l .bool → Expr.Has S Γ r .bool →
      Expr.Has S Γ (.binary op l r span) .bool
  | call {f : FunctionDecl} {callee : Name} {args : List Expr} {span : Span} :
      f ∈ S.contract.functions → f.name.text = callee.text → (S.isView → f.isView) →
      ArgsHave S Γ args (f.params.map (·.type.ty)) →
      Expr.Has S Γ (.call callee args span) (Ty.ofResult f.result)
  | builtin {kind : Builtin} {callee : Name} {args : List Expr} {span : Span} :
      kind.callName? = some callee.text → (S.isView → kind.changesState = false) →
      ArgsHave S Γ args kind.params → Expr.Has S Γ (.call callee args span) kind.result

/-- Arguments have types, each one its own. -/
inductive ArgsHave (S : Setting) (Γ : Sight) : List Expr → List Ty → Prop
  | nil : ArgsHave S Γ [] []
  | cons {arg : Expr} {args : List Expr} {type : Ty} {types : List Ty} : Expr.Has S Γ arg type →
      ArgsHave S Γ args types → ArgsHave S Γ (arg :: args) (type :: types)

end

/-! ### Statements -/

mutual

/-- A statement follows the rules, with the variables in sight before and behind it. -/
inductive Stmt.Follows (S : Setting) : Sight → Stmt → Sight → Prop
  | letIn {Γ : Sight} {name : Name} {ascribed : Option ValueType} {value : Expr} {span : Span}
      {type : Ty} : (∀ d ∈ S.contract.storage, d.name.text ≠ name.text) → value.Has S Γ type →
      (∀ other ∈ ascribed, type = other.ty) → type ≠ .unit →
      Stmt.Follows S Γ (.letIn name ascribed value span) ((name.text, type) :: Γ)
  | assign {Γ : Sight} {target : Name} {value : Expr} {span : Span} {type : Ty} :
      Γ.lookup target.text = some type → value.Has S Γ type →
      Stmt.Follows S Γ (.assign target value span) Γ
  | store {Γ : Sight} {target : Name} {value : Expr} {span : Span} {d : StorageDecl} :
      Γ.lookup target.text = none → d ∈ S.contract.storage → d.name.text = target.text →
      S.isView = false → value.Has S Γ d.type.ty → Stmt.Follows S Γ (.assign target value span) Γ
  | ifThen {Γ : Sight} {cond : Expr} {yes : Block} {span : Span} : cond.Has S Γ .bool →
      Block.Follows S Γ yes → Stmt.Follows S Γ (.ifThen cond yes none span) Γ
  | ifElse {Γ : Sight} {cond : Expr} {yes no : Block} {span : Span} : cond.Has S Γ .bool →
      Block.Follows S Γ yes → Block.Follows S Γ no →
      Stmt.Follows S Γ (.ifThen cond yes (some no) span) Γ
  | whileDo {Γ : Sight} {cond : Expr} {body : Block} {span : Span} : cond.Has S Γ .bool →
      Block.Follows S Γ body → Stmt.Follows S Γ (.whileDo cond body span) Γ
  | returns {Γ : Sight} {span : Span} : S.result = .unit →
      Stmt.Follows S Γ (.returns none span) Γ
  | returnsValue {Γ : Sight} {value : Expr} {span : Span} : S.result ≠ .unit →
      value.Has S Γ S.result → Stmt.Follows S Γ (.returns (some value) span) Γ
  | require {Γ : Sight} {cond : Expr} {span : Span} : cond.Has S Γ .bool →
      Stmt.Follows S Γ (.require cond span) Γ
  | eval {Γ : Sight} {value : Expr} {span : Span} {type : Ty} : value.Has S Γ type →
      Stmt.Follows S Γ (.eval value span) Γ

/-- A block follows the rules. -/
inductive Block.Follows (S : Setting) : Sight → Block → Prop
  | mk {Γ inner : Sight} {stmts : List Stmt} {span : Span} : StmtsFollow S Γ stmts inner →
      Block.Follows S Γ (.mk stmts span)

/-- Statements in order follow the rules. -/
inductive StmtsFollow (S : Setting) : Sight → List Stmt → Sight → Prop
  | nil {Γ : Sight} : StmtsFollow S Γ [] Γ
  | cons {Γ Γ' Γ'' : Sight} {s : Stmt} {rest : List Stmt} : Stmt.Follows S Γ s Γ' →
      StmtsFollow S Γ' rest Γ'' → StmtsFollow S Γ (s :: rest) Γ''

end

/-! ### Control -/

mutual

/-- Control never passes beyond a statement. -/
inductive Stmt.Diverges : Stmt → Prop
  | returns {value : Option Expr} {span : Span} : Stmt.Diverges (.returns value span)
  | ifElse {cond : Expr} {yes no : Block} {span : Span} : Block.Diverges yes → Block.Diverges no →
      Stmt.Diverges (.ifThen cond yes (some no) span)
  | whileTrue {inner span : Span} {body : Block} :
      Stmt.Diverges (.whileDo (.bool true inner) body span)

/-- Some statement of a block is one that control never passes beyond. -/
inductive Block.Diverges : Block → Prop
  | mk {s : Stmt} {stmts : List Stmt} {span : Span} : s ∈ stmts → Stmt.Diverges s →
      Block.Diverges (.mk stmts span)

end

/-! ### Declarations -/

/-- The variables in sight where the body of a function starts. -/
def FunctionDecl.sight (f : FunctionDecl) : Sight :=
  (f.params.map fun p => (p.name.text, p.type.ty)).reverse

/-- A function of a contract follows the rules. -/
structure FunctionDecl.WellFormed (contract : Contract) (f : FunctionDecl) : Prop where
  params_nodup : (f.params.map (·.name.text)).Nodup
  params_fresh : ∀ p ∈ f.params, ∀ d ∈ contract.storage, d.name.text ≠ p.name.text
  body : f.body.Follows ⟨contract, Ty.ofResult f.result, f.isView⟩ f.sight
  returns : f.result.isSome → f.body.Diverges

/-- The declarations of a contract have names of their own, and no function has the name of a host
operation. -/
structure Contract.Named (contract : Contract) : Prop where
  storage_nodup : (contract.storage.map (·.name.text)).Nodup
  functions_nodup : (contract.functions.map (·.name.text)).Nodup
  noBuiltin : ∀ f ∈ contract.functions, ∀ kind, Builtin.callName? kind ≠ some f.name.text

/-- A contract follows the rules. -/
structure Contract.WellFormed (contract : Contract) : Prop extends contract.Named where
  functions : ∀ f ∈ contract.functions, f.WellFormed contract

end Workbench.Syntax
