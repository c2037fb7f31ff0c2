/-!
# JSON values

Objects keep their members in the order in which they were written. A member set again keeps its
place and takes the new value, so an object never holds a key twice when it is built with `set`.

Numbers come in two kinds. Whole numbers that fit 64 bits, signed or unsigned, are integers; every
other number is kept as the decimal it was written as, which is all that is needed to send it back.
-/

namespace Workbench

/-- A number that is not an integer of 64 bits: `digits * 10 ^ exponent`, with a sign that also a
zero can carry. -/
structure Json.Decimal where
  negative : Bool
  digits : Nat
  exponent : Int
  deriving DecidableEq, Repr, Inhabited

inductive Json where
  | null
  | bool (value : Bool)
  | int (value : Int)
  | decimal (value : Json.Decimal)
  | str (value : String)
  | arr (items : List Json)
  | obj (members : List (String × Json))
  deriving Repr, Inhabited

namespace Json

/-! ### Members -/

/-- The value of a key in a list of members. -/
def lookup? (key : String) : List (String × Json) → Option Json
  | [] => none
  | (k, v) :: rest => if k = key then some v else lookup? key rest

/-- The members with the value of one key set; a new key goes to the end. -/
def setMember (key : String) (value : Json) : List (String × Json) → List (String × Json)
  | [] => [(key, value)]
  | (k, v) :: rest => if k = key then (k, value) :: rest else (k, v) :: setMember key value rest

def eraseMember (key : String) : List (String × Json) → List (String × Json)
  | [] => []
  | (k, v) :: rest => if k = key then eraseMember key rest else (k, v) :: eraseMember key rest

/-- The value of a key of an object; `none` for other values. -/
def get? (key : String) : Json → Option Json
  | obj members => lookup? key members
  | _ => none

def isNull : Json → Bool
  | null => true
  | _ => false

@[simp] theorem lookup?_setMember_self (key : String) (value : Json)
    (members : List (String × Json)) : lookup? key (setMember key value members) = some value := by
  induction members with
  | nil => simp [setMember, lookup?]
  | cons m rest ih => by_cases h : m.1 = key <;> simp [setMember, lookup?, h, ih]

theorem lookup?_setMember_of_ne {key other : String} (h : other ≠ key) (value : Json)
    (members : List (String × Json)) :
    lookup? other (setMember key value members) = lookup? other members := by
  induction members with
  | nil => simp [setMember, lookup?, h.symm]
  | cons m rest ih =>
      by_cases hm : m.1 = key
      · simp [setMember, lookup?, hm, h.symm]
      · by_cases ho : m.1 = other <;> simp_all [setMember, lookup?]

@[simp] theorem lookup?_eraseMember_self (key : String) (members : List (String × Json)) :
    lookup? key (eraseMember key members) = none := by
  induction members with
  | nil => rfl
  | cons m rest ih => by_cases h : m.1 = key <;> simp [eraseMember, lookup?, h, ih]

theorem lookup?_eraseMember_of_ne {key other : String} (h : other ≠ key)
    (members : List (String × Json)) :
    lookup? other (eraseMember key members) = lookup? other members := by
  induction members with
  | nil => rfl
  | cons m rest ih =>
      by_cases hm : m.1 = key
      · simp [eraseMember, lookup?, hm, h.symm, ih]
      · by_cases ho : m.1 = other <;> simp_all [eraseMember, lookup?]

/-! ### Building -/

def nat (n : Nat) : Json := int n

/-- A value that may be absent, written as `null` then. -/
def ofOption {α : Type} (f : α → Json) : Option α → Json
  | none => null
  | some a => f a

def strings (items : List String) : Json :=
  arr (items.map str)

end Json

end Workbench
