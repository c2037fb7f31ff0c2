import Workbench.Lang.Builtin
import Workbench.Lang.Operator
import Workbench.Lang.Word
import Workbench.Source.Span

/-!
# The lowered form of a contract

Names are resolved: a local is an index into the table of its function, parameters first, a storage
variable is a slot, and a call names a function by index or a host operation. The leaves that refer
to a declaration carry its type, so the type of every expression is a function of the expression
alone.
-/

namespace Workbench.Lowered

open Source (Span)
open Lang (Ty UnaryOp BinaryOp Builtin Word)

/-! ### Expressions -/

inductive Expr where
  | int (value : Word) (span : Span)
  | bool (value : Bool) (span : Span)
  /-- A parameter or a variable of the function. -/
  | var (index : Nat) (type : Ty) (span : Span)
  | slot (index : Nat) (type : Ty) (span : Span)
  | unary (op : UnaryOp) (operand : Expr) (span : Span)
  | binary (op : BinaryOp) (lhs rhs : Expr) (span : Span)
  /-- A shift to the left by a constant. -/
  | shl (value : Expr) (amount : Nat) (span : Span)
  | call (function : Nat) (args : List Expr) (result : Ty) (span : Span)
  | builtin (kind : Builtin) (args : List Expr) (span : Span)
  deriving Repr, Inhabited

/-- The type that an operator with one operand takes and gives. -/
def unaryType : UnaryOp → Ty
  | .neg => .i32
  | .not => .bool

/-- The type that an operator with two operands gives. -/
def binaryType : BinaryOp → Ty
  | .add | .sub | .mul | .div | .rem => .i32
  | .eq | .ne | .lt | .le | .gt | .ge | .and | .or => .bool

namespace Expr

def span : Expr → Span
  | int _ s | bool _ s | var _ _ s | slot _ _ s | unary _ _ s | binary _ _ _ s | shl _ _ s
  | call _ _ _ s | builtin _ _ s => s

def type : Expr → Ty
  | int .. => .i32
  | bool .. => .bool
  | var _ t _ | slot _ t _ | call _ _ t _ => t
  | unary op _ _ => unaryType op
  | binary op _ _ _ => binaryType op
  | shl .. => .i32
  | builtin kind _ _ => kind.result

/-- Whether evaluation can neither trap nor touch anything but the locals. A read of storage is a
request to the host and so not pure. -/
def isPure : Expr → Bool
  | int .. | bool .. | var .. => true
  | slot .. | call .. | builtin .. => false
  | unary _ e _ | shl e _ _ => e.isPure
  | binary op l r _ => op != .div && op != .rem && l.isPure && r.isPure

mutual

/-- An expression and everything below it, in the order of evaluation. -/
def nodes (e : Expr) : List Expr :=
  match e with
  | int .. | bool .. | var .. | slot .. => [e]
  | unary _ a _ | shl a _ _ => a.nodes ++ [e]
  | binary _ l r _ => l.nodes ++ r.nodes ++ [e]
  | call _ args _ _ | builtin _ args _ => nodesOfList args ++ [e]

/-- The expressions of a list with everything below them. -/
def nodesOfList : List Expr → List Expr
  | [] => []
  | a :: rest => a.nodes ++ nodesOfList rest

end

end Expr

/-! ### Statements -/

inductive Stmt where
  | letIn (index : Nat) (value : Expr) (span : Span)
  | set (index : Nat) (value : Expr) (span : Span)
  | store (slot : Nat) (value : Expr) (span : Span)
  | ifThen (cond : Expr) (yes no : List Stmt) (span : Span)
  | whileDo (cond : Expr) (body : List Stmt) (span : Span)
  | returns (value : Option Expr) (span : Span)
  | require (cond : Expr) (span : Span)
  | eval (value : Expr) (span : Span)
  deriving Repr, Inhabited

/-- Whether an expression is the literal truth, as the condition of an endless loop. -/
def Expr.isTrue : Expr → Bool
  | .bool true _ => true
  | _ => false

namespace Stmt

def span : Stmt → Span
  | letIn _ _ s | set _ _ s | store _ _ s | ifThen _ _ _ s | whileDo _ _ s | returns _ s
  | require _ s
  | eval _ s => s

mutual

/-- Whether control never passes beyond a statement. There is no way out of a loop but to return, so
a loop on the literal truth counts. -/
def diverges : Stmt → Bool
  | returns .. => true
  | ifThen _ yes no _ => anyDiverges yes && anyDiverges no
  | whileDo cond _ _ => cond.isTrue
  | _ => false

/-- Whether control never passes beyond a sequence of statements. -/
def anyDiverges : List Stmt → Bool
  | [] => false
  | s :: rest => s.diverges || anyDiverges rest

end

end Stmt

/-! ### Declarations -/

/-- A declared name with its type: a storage variable, or a local of a function. -/
structure Variable where
  name : String
  type : Ty
  deriving DecidableEq, Repr, Inhabited

structure Function where
  name : String
  /-- How many of the locals are parameters. -/
  paramCount : Nat
  result : Ty
  locals : List Variable
  body : List Stmt
  isPublic : Bool
  isView : Bool
  span : Span
  deriving Repr, Inhabited

def Function.params (f : Function) : List Variable :=
  f.locals.take f.paramCount

structure Contract where
  name : String
  /-- The storage variables; a slot is a position in this list. -/
  storage : List Variable
  functions : List Function
  span : Span
  deriving Repr, Inhabited

end Workbench.Lowered
