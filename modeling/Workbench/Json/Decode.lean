import Workbench.Json.Basic

/-!
# Reading records out of JSON values

A record is an object, or an array of its fields in the order of their declaration. Of an object,
members that no field is named for are ignored, and a field that occurs twice is an error. An array
may end early, so that the last fields are absent, but it cannot have more items than there are
fields.

A field is then required, or has a default for when it is absent, or is optional: absent or `null`.
-/

namespace Workbench.Json

/-! ### Fields -/

/-- The values of a key, in order. -/
def valuesOf (key : String) (members : List (String × Json)) : List Json :=
  members.filterMap fun (k, v) => if k = key then some v else none

/-- The value of a field among members; none if the field occurs twice. -/
def memberField? (members : List (String × Json)) (key : String) : Option (Option Json) :=
  match valuesOf key members with
  | [] => some none
  | [v] => some (some v)
  | _ => none

/-- The values of the fields of a record, absent ones as none. -/
def fields? (names : List String) : Json → Option (List (Option Json))
  | obj members => names.mapM (memberField? members)
  | arr items =>
      if names.length < items.length then none
      else some (items.map some ++ List.replicate (names.length - items.length) none)
  | _ => none

/-- A field that has to be there. -/
def required {α : Type} (read : Json → Option α) (field : Option Json) : Option α :=
  field.bind read

/-- A field with a value for when it is absent. -/
def withDefault {α : Type} (default : α) (read : Json → Option α) : Option Json → Option α
  | none => some default
  | some v => read v

/-- A field that may be absent or `null`. -/
def optional {α : Type} (read : Json → Option α) : Option Json → Option (Option α)
  | none | some null => some none
  | some v => (read v).map some

/-! ### Values -/

def asString? : Json → Option String
  | str s => some s
  | _ => none

def asBool? : Json → Option Bool
  | bool b => some b
  | _ => none

/-- A natural number of at most so many bits. -/
def asNat? (bits : Nat) : Json → Option Nat
  | int n => if 0 ≤ n ∧ n.toNat < 1 <<< bits then some n.toNat else none
  | _ => none

/-- A list of values of one kind. -/
def asList? {α : Type} (read : Json → Option α) : Json → Option (List α)
  | arr items => items.mapM read
  | _ => none

end Workbench.Json
