import Workbench.Lang.Operator
import Workbench.Lang.ValueType
import Workbench.Source.Diagnostic

/-!
# What can be wrong with a contract that parses

Each constructor is one cause with the data that its wording needs. `Checked` is the result of a
check: a value together with the problems met on the way, in the order in which they were met.
-/

namespace Workbench.Check

open Source (Span Diagnostic)
open Lang (Ty BinaryOp)

/-- A violated rule of the language. -/
inductive Problem where
  | storageTwice (name : String)
  | parameterTwice (name : String)
  | functionTwice (name : String)
  | functionIsBuiltin (name : String)
  | unknownVariable (name : String)
  | unknownFunction (name : String)
  | argumentCount (name : String) (expected given : Nat)
  | mismatch (expected found : Ty)
  | operands (op : BinaryOp) (expected left right : Ty)
  | comparison (op : BinaryOp) (left right : Ty)
  | bindsNothing
  | literalRange (value : Nat)
  | viewWrites (name : String)
  | viewCalls (name : String)
  | viewCallsBuiltin (name : String)
  | mayFallThrough (name : String) (result : Ty)
  | unexpectedValue
  | missingValue (result : Ty)
  | shadowsStorage (name : String)
  deriving DecidableEq, Repr

namespace Problem

def code : Problem → String
  | storageTwice _ | parameterTwice _ => "E0201"
  | functionTwice _ | functionIsBuiltin _ => "E0202"
  | unknownVariable _ => "E0203"
  | unknownFunction _ => "E0204"
  | argumentCount .. => "E0205"
  | mismatch .. | operands .. | comparison .. | bindsNothing => "E0206"
  | literalRange _ => "E0207"
  | viewWrites _ | viewCalls _ | viewCallsBuiltin _ => "E0208"
  | mayFallThrough .. => "E0209"
  | unexpectedValue | missingValue _ => "E0210"
  | shadowsStorage _ => "E0211"

def message : Problem → String
  | storageTwice name => s!"storage variable `{name}` is declared twice"
  | parameterTwice name => s!"parameter `{name}` is declared twice"
  | functionTwice name => s!"function `{name}` is declared twice"
  | functionIsBuiltin name => s!"function `{name}` collides with a builtin"
  | unknownVariable name => s!"cannot find variable `{name}` in this scope"
  | unknownFunction name => s!"cannot find function `{name}`"
  | argumentCount name expected given =>
      s!"`{name}` takes {expected} argument(s) but {given} were supplied"
  | mismatch expected found => s!"mismatched types: expected {expected.text}, found {found.text}"
  | operands op expected left right =>
      s!"operator `{op.text}` expects {expected.text} operands, found {left.text} and {right.text}"
  | comparison op left right => s!"cannot compare {left.text} with {right.text} using `{op.text}`"
  | bindsNothing => "cannot bind a value of type ()"
  | literalRange value => s!"integer literal {value} does not fit in i32"
  | viewWrites name => s!"view function writes storage variable `{name}`"
  | viewCalls name => s!"view function calls non-view function `{name}`"
  | viewCallsBuiltin name => s!"view function calls state-changing builtin `{name}`"
  | mayFallThrough name result =>
      s!"function `{name}` must return a value of type {result.text} on every path"
  | unexpectedValue => "function without a result type cannot return a value"
  | missingValue result => s!"missing return value of type {result.text}"
  | shadowsStorage name => s!"`{name}` shadows a storage variable"

end Problem

structure Located where
  problem : Problem
  span : Span
  deriving DecidableEq, Repr

/-- The message about a problem. -/
def Located.diagnostic (p : Located) : Diagnostic :=
  ⟨.semantic, .error, p.problem.code, p.problem.message, p.span⟩

/-! ### Results of checks -/

/-- A value with the problems met on the way to it. -/
structure Checked (α : Type) where
  value : α
  problems : List Located

namespace Checked

protected def pure {α : Type} (a : α) : Checked α := ⟨a, []⟩

/-- One check after another; problems keep their order. -/
protected def bind {α β : Type} (x : Checked α) (f : α → Checked β) : Checked β :=
  let y := f x.value
  ⟨y.value, x.problems ++ y.problems⟩

instance : Monad Checked where
  pure := Checked.pure
  bind := Checked.bind

@[simp] theorem value_pure {α : Type} (a : α) : (pure a : Checked α).value = a := rfl

@[simp] theorem problems_pure {α : Type} (a : α) : (pure a : Checked α).problems = [] := rfl

@[simp] theorem value_bind {α β : Type} (x : Checked α) (f : α → Checked β) :
    (x >>= f).value = (f x.value).value := rfl

@[simp] theorem problems_bind {α β : Type} (x : Checked α) (f : α → Checked β) :
    (x >>= f).problems = x.problems ++ (f x.value).problems := rfl

def report (problem : Problem) (span : Span) : Checked Unit :=
  ⟨(), [⟨problem, span⟩]⟩

def reportIf (condition : Bool) (problem : Problem) (span : Span) : Checked Unit :=
  if condition then report problem span else pure ()

end Checked

end Workbench.Check
