import Workbench.Lang.Operator
import Workbench.Lang.ValueType
import Workbench.Source.Span

/-!
# Syntax trees of the contract language

The tree keeps what the text says and no more: names are not resolved and nothing has a type yet.
Every node knows the range of the text it was read from. Parentheses leave no node, they only widen
the range of the expression they enclose.
-/

namespace Workbench.Syntax

open Source (Span)
open Lang (ValueType UnaryOp BinaryOp)

/-- An identifier where it stands. -/
structure Name where
  text : String
  span : Span
  deriving DecidableEq, Repr, Inhabited

/-! ### Expressions -/

inductive Expr where
  | int (value : Nat) (span : Span)
  | bool (value : Bool) (span : Span)
  | name (text : String) (span : Span)
  | call (callee : Name) (args : List Expr) (span : Span)
  | unary (op : UnaryOp) (operand : Expr) (span : Span)
  | binary (op : BinaryOp) (lhs rhs : Expr) (span : Span)
  deriving Repr, Inhabited

namespace Expr

def span : Expr → Span
  | int _ s | bool _ s | name _ s | call _ _ s | unary _ _ s | binary _ _ _ s => s

/-- The same expression with another range. -/
def withSpan (s : Span) : Expr → Expr
  | int v _ => int v s
  | bool v _ => bool v s
  | name n _ => name n s
  | call f as _ => call f as s
  | unary op e _ => unary op e s
  | binary op l r _ => binary op l r s

@[simp] theorem span_withSpan (s : Span) (e : Expr) : (e.withSpan s).span = s := by
  cases e <;> rfl

end Expr

/-! ### Statements -/

mutual

inductive Stmt where
  | letIn (name : Name) (type : Option ValueType) (value : Expr) (span : Span)
  | assign (target : Name) (value : Expr) (span : Span)
  /-- A conditional; a chained one is stored as an alternative that holds a single conditional. -/
  | ifThen (cond : Expr) (yes : Block) (no : Option Block) (span : Span)
  | whileDo (cond : Expr) (body : Block) (span : Span)
  | returns (value : Option Expr) (span : Span)
  | require (cond : Expr) (span : Span)
  | eval (value : Expr) (span : Span)
  deriving Repr

inductive Block where
  | mk (stmts : List Stmt) (span : Span)
  deriving Repr

end

instance : Inhabited Block := ⟨⟨[], default⟩⟩
instance : Inhabited Stmt := ⟨.returns none default⟩

namespace Stmt

def span : Stmt → Span
  | letIn _ _ _ s | assign _ _ s | ifThen _ _ _ s | whileDo _ _ s | returns _ s | require _ s
  | eval _ s => s

end Stmt

namespace Block

def stmts : Block → List Stmt
  | mk stmts _ => stmts

/-- The range of a block, its braces included. -/
def span : Block → Span
  | mk _ span => span

end Block

/-! ### Declarations -/

structure StorageDecl where
  name : Name
  type : ValueType
  span : Span
  deriving DecidableEq, Repr, Inhabited

structure Param where
  name : Name
  type : ValueType
  deriving DecidableEq, Repr, Inhabited

structure FunctionDecl where
  name : Name
  params : List Param
  result : Option ValueType
  isPublic : Bool
  isView : Bool
  body : Block
  span : Span
  deriving Repr, Inhabited

structure Contract where
  name : Name
  storage : List StorageDecl
  functions : List FunctionDecl
  span : Span
  deriving Repr, Inhabited

end Workbench.Syntax
