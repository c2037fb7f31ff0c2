/-!
# Machine words

Contracts compute on words of 32 bits, read as signed numbers where the sign matters. Division is
the one operation that can fail: by zero, and in the one case where the quotient does not fit.
-/

namespace Workbench.Lang

abbrev Word := BitVec 32

namespace Word

def least : Word := BitVec.intMin 32

/-- The word for a truth value. -/
def ofBool (b : Bool) : Word :=
  if b then 1 else 0

/-- The quotient, rounded toward zero; none for a divisor of zero and for the one quotient that does
not fit. -/
def quotient? (a b : Word) : Option Word :=
  if b = 0 ∨ (a = least ∧ b = -1) then none else some (a.sdiv b)

/-- The remainder, with the sign of the dividend; none for a divisor of zero. -/
def remainder? (a b : Word) : Option Word :=
  if b = 0 then none else some (a.srem b)

end Word

end Workbench.Lang
