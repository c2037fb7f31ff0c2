/-!
# Value types of the contract language

A name is declared with one of two types. An expression has one of these or no value at all, as the
call of a function without a result; `Ty` adds that case.
-/

namespace Workbench.Lang

/-- The types that a declaration can name. -/
inductive ValueType where
  | i32
  | bool
  deriving DecidableEq, Repr, Inhabited

def ValueType.text : ValueType → String
  | i32 => "i32"
  | bool => "bool"

/-- The type of an expression. -/
inductive Ty where
  | i32
  | bool
  /-- No value. -/
  | unit
  deriving DecidableEq, Repr, Inhabited

namespace Ty

/-- The spelling of a type in messages. -/
def text : Ty → String
  | i32 => "i32"
  | bool => "bool"
  | unit => "()"

/-- The name of a type in an interface description. -/
def interfaceName : Ty → String
  | i32 => "int32"
  | bool => "bool"
  | unit => "void"

/-- Whether an expression of the type leaves a value. -/
def hasValue : Ty → Bool
  | i32 | bool => true
  | unit => false

end Ty

/-- The type of an expression that has a declared type. -/
def ValueType.ty : ValueType → Ty
  | i32 => .i32
  | bool => .bool

/-- The type of a call by the result that the function declares. -/
def Ty.ofResult : Option ValueType → Ty
  | some type => type.ty
  | none => .unit

end Workbench.Lang
