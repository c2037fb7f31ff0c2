/-!
# Operators of the contract language

The operators are shared by the syntax tree and the lowered form. Binary operators associate to the
left, and a higher binding strength binds tighter.
-/

namespace Workbench.Lang

inductive UnaryOp where
  | neg
  | not
  deriving DecidableEq, Repr, Inhabited

inductive BinaryOp where
  | add
  | sub
  | mul
  | div
  | rem
  | eq
  | ne
  | lt
  | le
  | gt
  | ge
  | and
  | or
  deriving DecidableEq, Repr, Inhabited

namespace BinaryOp

def text : BinaryOp → String
  | add => "+"
  | sub => "-"
  | mul => "*"
  | div => "/"
  | rem => "%"
  | eq => "=="
  | ne => "!="
  | lt => "<"
  | le => "<="
  | gt => ">"
  | ge => ">="
  | and => "&&"
  | or => "||"

/-- How tightly an operator binds its operands. -/
def strength : BinaryOp → Nat
  | or => 1
  | and => 2
  | eq | ne => 3
  | lt | le | gt | ge => 4
  | add | sub => 5
  | mul | div | rem => 6

end BinaryOp

end Workbench.Lang
