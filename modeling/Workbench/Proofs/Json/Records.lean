import Mathlib.Data.List.Forall2
import Workbench.Json.Decode
import Workbench.Proofs.Json.Keys

/-!
# What records hold

A record is an object with its fields in any order among other members, or an array of them in
order. The readers of records, fields and values are exact: they give what such a value holds, and
nothing for any other value.
-/

namespace Workbench.Json

variable {α : Type} {key : String} {members : List (String × Json)} {names : List String}
  {fields : List (Option Json)} {value : Json}

/-! ### Members -/

/-- What the members say of a key. -/
def Holds (members : List (String × Json)) (key : String) : Option Json → Prop
  | some value => (key, value) ∈ members
  | none => ∀ value, (key, value) ∉ members

theorem lookup?_eq_some_iff (distinct : (members.map Prod.fst).Nodup) :
    lookup? key members = some value ↔ (key, value) ∈ members := by
  induction members with
  | nil => simp [lookup?]
  | cons first rest ih =>
      obtain ⟨k, v⟩ := first
      obtain ⟨fresh, distinct⟩ := List.nodup_cons.1 distinct
      unfold lookup?
      split
      · next same =>
        subst same
        have absent : (k, value) ∉ rest := fun mem => fresh (List.mem_map.2 ⟨_, mem, rfl⟩)
        simp [absent, eq_comm]
      · next other =>
        rw [ih distinct, List.mem_cons]
        simp [Ne.symm other]

theorem lookup?_eq_iff (distinct : (members.map Prod.fst).Nodup) {field : Option Json} :
    lookup? key members = field ↔ Holds members key field := by
  cases field with
  | none =>
      rw [Option.eq_none_iff_forall_ne_some]
      exact forall_congr' fun value => not_congr (lookup?_eq_some_iff distinct)
  | some value => exact lookup?_eq_some_iff distinct

theorem valuesOf_eq (distinct : (members.map Prod.fst).Nodup) (key : String) :
    valuesOf key members = (lookup? key members).toList := by
  induction members with
  | nil => rfl
  | cons first rest ih =>
      obtain ⟨k, v⟩ := first
      obtain ⟨fresh, distinct⟩ := List.nodup_cons.1 distinct
      replace ih := ih distinct
      unfold valuesOf at ih ⊢
      unfold lookup?
      by_cases same : k = key
      · have absent : lookup? key rest = none :=
          (lookup?_eq_iff distinct).2 fun value mem =>
            fresh (List.mem_map.2 ⟨_, mem, same.symm⟩)
        simp only [List.filterMap_cons, same, if_true, ih, absent, Option.toList_none,
          Option.toList_some]
      · simp only [List.filterMap_cons, same, if_false, ih]

theorem memberField?_eq (distinct : (members.map Prod.fst).Nodup) (key : String) :
    memberField? members key = some (lookup? key members) := by
  unfold memberField?
  rw [valuesOf_eq distinct]
  cases lookup? key members <;> rfl

/-! ### Records -/

/-- The value is a record with these fields, absent ones being none. -/
inductive Lays (names : List String) : Json → List (Option Json) → Prop
  | object {members : List (String × Json)} {fields : List (Option Json)} :
      List.Forall₂ (Holds members) names fields → Lays names (.obj members) fields
  /-- The last fields can be left out. -/
  | array {items : List Json} : items.length ≤ names.length →
      Lays names (.arr items)
        (items.map some ++ List.replicate (names.length - items.length) none)

theorem Lays.length_eq (lays : Lays names value fields) : fields.length = names.length := by
  cases lays with
  | object holds => exact holds.length_eq.symm
  | array fits =>
      rw [List.length_append, List.length_map, List.length_replicate]
      omega

theorem mapM_memberField?_eq_some_iff (distinct : (members.map Prod.fst).Nodup) :
    names.mapM (memberField? members) = some fields ↔
      List.Forall₂ (Holds members) names fields := by
  induction names generalizing fields with
  | nil => simp [eq_comm]
  | cons name names ih =>
      rw [List.mapM_cons, memberField?_eq distinct]
      simp only [Option.bind_eq_bind, Option.bind_some, Option.bind_eq_some_iff, ih,
        Option.pure_def, Option.some.injEq, List.forall₂_cons_left_iff]
      constructor
      · rintro ⟨rest, holds, rfl⟩
        exact ⟨_, rest, (lookup?_eq_iff distinct).1 rfl, holds, rfl⟩
      · rintro ⟨field, rest, here, holds, rfl⟩
        exact ⟨rest, holds, by rw [(lookup?_eq_iff distinct).2 here]⟩

theorem fields?_eq_some_iff (distinct : Distinct value) :
    fields? names value = some fields ↔ Lays names value fields := by
  cases value with
  | obj members =>
      cases distinct with
      | obj distinct _ =>
          rw [fields?, mapM_memberField?_eq_some_iff distinct]
          exact ⟨.object, fun | .object holds => holds⟩
  | arr items =>
      by_cases longer : names.length < items.length
      · rw [fields?, if_pos longer]
        refine iff_of_false nofun fun lays => ?_
        cases lays with
        | array fits => exact Nat.not_lt.2 fits longer
      · rw [fields?, if_neg longer, Option.some.injEq]
        constructor
        · rintro rfl
          exact .array (Nat.le_of_not_lt longer)
        · rintro ⟨⟩
          rfl
  | null | bool _ | int _ | decimal _ | str _ => exact iff_of_false nofun nofun

/-! ### Readers -/

/-- The reader gives exactly the values that stand for something. -/
def Reads (read : Json → Option α) (Stands : α → Json → Prop) : Prop :=
  ∀ value a, read value = some a ↔ Stands a value

/-- A field that may be absent, with what it counts as then. -/
inductive OrElse (default : α) (Stands : α → Json → Prop) : Option Json → α → Prop
  | absent : OrElse default Stands none default
  | given {value : Json} {a : α} : Stands a value → OrElse default Stands (some value) a

/-- A field that may be absent or `null`. -/
inductive Perhaps (Stands : α → Json → Prop) : Option Json → Option α → Prop
  | absent : Perhaps Stands none none
  | null : Perhaps Stands (some .null) none
  | given {value : Json} {a : α} : Stands a value → Perhaps Stands (some value) (some a)

section

variable {read : Json → Option α} {Stands : α → Json → Prop} {field : Option Json}

theorem Reads.required_eq_some_iff (reads : Reads read Stands) {a : α} :
    required read field = some a ↔ ∃ value, field = some value ∧ Stands a value := by
  rw [required, Option.bind_eq_some_iff]
  simp only [reads _ _]

theorem Reads.withDefault_eq_some_iff (reads : Reads read Stands) {default a : α} :
    withDefault default read field = some a ↔ OrElse default Stands field a := by
  cases field with
  | none =>
      rw [withDefault, Option.some.injEq]
      constructor
      · rintro rfl
        exact .absent
      · rintro ⟨⟩
        rfl
  | some value =>
      rw [withDefault, reads]
      exact ⟨.given, fun | .given stands => stands⟩

theorem Reads.optional_eq_some_iff (reads : Reads read Stands) (unread : read .null = none)
    {a : Option α} : optional read field = some a ↔ Perhaps Stands field a := by
  unfold optional
  split
  · rw [Option.some.injEq]
    constructor
    · rintro rfl
      exact .absent
    · rintro ⟨⟩
      rfl
  · rw [Option.some.injEq]
    constructor
    · rintro rfl
      exact .null
    · intro perhaps
      cases perhaps with
      | null => rfl
      | given stands => cases unread.symm.trans ((reads _ _).2 stands)
  · next value other =>
    rw [Option.map_eq_some_iff]
    constructor
    · rintro ⟨a, is, rfl⟩
      exact .given ((reads _ _).1 is)
    · intro perhaps
      cases perhaps with
      | null => exact absurd rfl other
      | given stands => exact ⟨_, (reads _ _).2 stands, rfl⟩

end

/-- A natural number below a bound. -/
def IsNat (bound : Nat) (n : Nat) (value : Json) : Prop :=
  n < bound ∧ value = .nat n

theorem reads_asString? : Reads asString? fun s value => value = .str s := by
  intro value s
  cases value <;> simp [asString?]

theorem reads_asBool? : Reads asBool? fun b value => value = .bool b := by
  intro value b
  cases value <;> simp [asBool?]

theorem reads_asNat? (bits : Nat) : Reads (asNat? bits) (IsNat (1 <<< bits)) := by
  intro value n
  unfold IsNat nat
  cases value with
  | int i =>
      rw [int.injEq]
      by_cases fits : 0 ≤ i ∧ i.toNat < 1 <<< bits
      · rw [asNat?, if_pos fits, Option.some.injEq]
        omega
      · rw [asNat?, if_neg fits]
        exact iff_of_false nofun fun is => fits (by omega)
  | _ => exact iff_of_false nofun nofun

theorem reads_asList? {read : Json → Option α} {write : α → Json}
    (reads : Reads read fun a value => value = write a) :
    Reads (asList? read) fun as value => value = .arr (as.map write) := by
  intro value as
  cases value with
  | arr items =>
      show items.mapM read = some as ↔ arr items = arr (as.map write)
      rw [arr.injEq]
      induction items generalizing as with
      | nil => cases as <;> simp
      | cons item items ih =>
          rw [List.mapM_cons]
          simp only [Option.bind_eq_bind, Option.bind_eq_some_iff, Option.pure_def,
            Option.some.injEq, ih, reads item _]
          cases as <;> simp
  | _ => exact iff_of_false nofun nofun

end Workbench.Json
