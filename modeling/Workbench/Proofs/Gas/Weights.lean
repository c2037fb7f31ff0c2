import Mathlib.Logic.Relation
import Workbench.Proofs.Gas.Prices

/-!
# Estimates of arbitrary modules

An estimate follows the weights of the operators of a module. It does not fall where operators or
bodies are added or operators become heavier, and it does not depend on their order or on anything
but the imports and the code. The amounts are added up with a cap at every step; that this is the
cap on the whole sum is what keeps all of it true for prices close to the cap.
-/

namespace Workbench.Wasm

/-! ### Sections of a module -/

/-- The sections of a module in binary form, cut apart. -/
def sectionsOf? (bytes : Bytes) : Option (List Section) :=
  match bytes with
  | 0x00 :: 0x61 :: 0x73 :: 0x6d :: 0x01 :: 0x00 :: 0x00 :: 0x00 :: rest => readSections rest
  | _ => none

/-- The content of the section with a mark; none without that section. -/
def sectionContent? (mark : UInt8) (bytes : Bytes) : Option Bytes :=
  (sectionsOf? bytes).bind fun sections => content? sections mark

def importSection? : Bytes → Option Bytes :=
  sectionContent? 2

def codeSection? : Bytes → Option Bytes :=
  sectionContent? 10

theorem Outline.ofBytes?_eq_bind (bytes : Bytes) :
    Outline.ofBytes? bytes = (sectionsOf? bytes).bind Outline.ofSections? := by
  unfold Outline.ofBytes?
  split
  case h_1 => rfl
  case h_2 other =>
    have uncut : sectionsOf? bytes = none := by
      unfold sectionsOf?
      split
      case h_1 rest => exact (other rest rfl).elim
      case h_2 => rfl
    rw [uncut, Option.bind_none]

/-- What the import section says about the imported functions. -/
def functionImports? (content : Option Bytes) : Option (List (String × String)) :=
  ((content.map (sectionItems? readImport)).getD (some [])).map fun imports =>
    imports.filterMap fun (moduleName, name, isFunction) =>
      if isFunction then some (moduleName, name) else none

/-- What the code section says about the bodies. -/
def codeBodies? (content : Option Bytes) : Option (List (List Operator)) :=
  (content.map (sectionItems? readBody)).getD (some [])

/-- The outline of a module depends on its import section and its code section alone. -/
theorem Outline.of_ofBytes? {bytes : Bytes} {outline : Outline}
    (reads : Outline.ofBytes? bytes = some outline) :
    functionImports? (importSection? bytes) = some outline.imports ∧
      codeBodies? (codeSection? bytes) = some outline.bodies := by
  rw [Outline.ofBytes?_eq_bind] at reads
  obtain ⟨sections, cut, reads⟩ := Option.bind_eq_some_iff.1 reads
  have content (mark : UInt8) : sectionContent? mark bytes = content? sections mark := by
    rw [sectionContent?, cut, Option.bind_some]
  rw [importSection?, codeSection?, content, content]
  simp only [Outline.ofSections?, Option.ite_none_left_eq_some, Option.bind_eq_bind,
    Option.bind_eq_some_iff] at reads
  obtain ⟨-, -, -, imports, readImports, bodies, readBodies, same⟩ := reads
  cases same
  exact ⟨by rw [functionImports?, readImports, Option.map_some], readBodies⟩

end Workbench.Wasm

namespace Workbench.Gas

open Wasm (Bytes Operator Outline importSection? codeSection?)

/-! ### Amounts with a cap -/

/-- A sum that stays at the cap. -/
def addCapped (a b : Nat) : Nat :=
  min cap (a + b)

/-- A product that stays at the cap. -/
def mulCapped (a b : Nat) : Nat :=
  min cap (a * b)

def HostCost.cappedTotal (c : HostCost) : Nat :=
  addCapped c.base (mulCapped c.perByte c.bytes)

/-- The price of an import, with the cap on its sum and on its product. -/
def Schedule.cappedHostCost (s : Schedule) (moduleName name : String) : Nat :=
  match s.host.find? fun (n, _) => n == name with
  | some (_, cost) => if moduleName == "env" then cost.cappedTotal else s.unknownHostCall
  | none => s.unknownHostCall

/-- The weight of an operator of a module with these imports: its price, with the cap on every sum
and product. -/
def operatorWeight (s : Schedule) (imports : List (String × String)) (operator : Operator) : Nat :=
  match accessWidth? operator with
  | some width => addCapped s.veryLow (mulCapped s.memoryPerByte width)
  | none =>
      operatorCost s (imports.map fun (moduleName, name) => s.cappedHostCost moduleName name)
        operator

/-- The weight of a module: operator after operator, with the cap at every step. -/
def outlineWeight (s : Schedule) (outline : Outline) : Nat :=
  outline.bodies.flatten.foldl
    (fun total operator => addCapped total (operatorWeight s outline.imports operator)) 0

/-- The prices of imported functions. -/
def hostCosts (s : Schedule) (imports : List (String × String)) : List Nat :=
  imports.map fun (moduleName, name) => s.hostCost moduleName name

theorem addCapped_mulCapped (a b c : Nat) : addCapped a (mulCapped b c) = min cap (a + b * c) := by
  simp only [addCapped, mulCapped]
  omega

theorem min_cappedHostCost (s : Schedule) (moduleName name : String) :
    min cap (s.cappedHostCost moduleName name) = min cap (s.hostCost moduleName name) := by
  have total (c : HostCost) : min cap c.cappedTotal = min cap c.total := by
    rw [HostCost.cappedTotal, addCapped_mulCapped, ← Nat.min_assoc, Nat.min_self, HostCost.total]
  unfold Schedule.cappedHostCost Schedule.hostCost
  cases s.host.find? fun (n, _) => n == name with
  | none => rfl
  | some listed =>
      by_cases own : moduleName == "env"
      · simp only [own, if_true, total]
      · simp only [own, Bool.false_eq_true, if_false]

/-- Up to the cap the weight of an operator is its price. -/
theorem min_operatorWeight (s : Schedule) (imports : List (String × String)) (operator : Operator) :
    min cap (operatorWeight s imports operator) =
      min cap (operatorCost s (hostCosts s imports) operator) := by
  unfold operatorWeight
  split
  case h_1 width accesses =>
    simp only [operatorCost, accesses]
    rw [addCapped_mulCapped, ← Nat.min_assoc, Nat.min_self]
  case h_2 accesses =>
    cases operator with
    | call function =>
        simp only [operatorCost, accesses, hostCosts, List.getElem?_map]
        cases imports[function]? with
        | none => rfl
        | some names => exact min_cappedHostCost s names.1 names.2
    | plain code => simp only [operatorCost, accesses]
    | paged page code => simp only [operatorCost, accesses]

/-- Adding weights with the cap at every step comes to the cap on the sum of the prices. -/
theorem foldl_operatorWeight (s : Schedule) (imports : List (String × String))
    (operators : List Operator) {start : Nat} (bound : start ≤ cap) :
    operators.foldl (fun total operator => addCapped total (operatorWeight s imports operator))
        start =
      min cap (start + operatorsCost s (hostCosts s imports) operators) := by
  induction operators generalizing start with
  | nil => exact (Nat.min_eq_right bound).symm
  | cons operator rest ih =>
      have weight := min_operatorWeight s imports operator
      have next : addCapped start (operatorWeight s imports operator) ≤ cap := Nat.min_le_left ..
      -- a cap that was taken on the way changes nothing, since it is taken again at the end
      rw [List.foldl_cons, ih next, operatorsCost_cons, addCapped]
      omega

theorem outlineCost_eq (s : Schedule) (outline : Outline) :
    outlineCost s outline =
      operatorsCost s (hostCosts s outline.imports) outline.bodies.flatten := by
  have total := foldl_operatorCost s (importCosts s outline) outline.bodies.flatten 0
  rw [outlineCost, total, Nat.zero_add, importCosts, hostCosts]

theorem outlineWeight_eq (s : Schedule) (outline : Outline) :
    outlineWeight s outline = min cap (outlineCost s outline) := by
  have total := foldl_operatorWeight s outline.imports outline.bodies.flatten (Nat.zero_le cap)
  rw [outlineWeight, total, Nat.zero_add, outlineCost_eq]

/-! ### Edits of bodies -/

/-- A change in one place of the code that takes no weight away. -/
inductive Edit (weight : Operator → Nat) : List (List Operator) → List (List Operator) → Prop where
  | insert (before after : List (List Operator)) (front back : List Operator)
      (operator : Operator) :
      Edit weight (before ++ (front ++ back) :: after)
        (before ++ (front ++ operator :: back) :: after)
  | replace (before after : List (List Operator)) (front back : List Operator)
      {operator heavier : Operator} (weighs : weight operator ≤ weight heavier) :
      Edit weight (before ++ (front ++ operator :: back) :: after)
        (before ++ (front ++ heavier :: back) :: after)
  | addBody (before after : List (List Operator)) (body : List Operator) :
      Edit weight (before ++ after) (before ++ body :: after)

/-- One change after another. -/
abbrev Edits (weight : Operator → Nat) : List (List Operator) → List (List Operator) → Prop :=
  Relation.ReflTransGen (Edit weight)

variable {s : Schedule} {imports : List (String × String)} {bodies edited : List (List Operator)}

theorem Edit.price_le (edit : Edit (operatorWeight s imports) bodies edited) :
    min cap (operatorsCost s (hostCosts s imports) bodies.flatten) ≤
      min cap (operatorsCost s (hostCosts s imports) edited.flatten) := by
  cases edit with
  | insert before after front back operator =>
      simp only [List.flatten_append, List.flatten_cons, operatorsCost_append, operatorsCost_cons]
      omega
  | @replace before after front back operator heavier weighs =>
      have price := min_operatorWeight s imports operator
      have heavierPrice := min_operatorWeight s imports heavier
      simp only [List.flatten_append, List.flatten_cons, operatorsCost_append, operatorsCost_cons]
      omega
  | addBody before after body =>
      simp only [List.flatten_append, List.flatten_cons, operatorsCost_append]
      omega

theorem Edits.price_le (edits : Edits (operatorWeight s imports) bodies edited) :
    min cap (operatorsCost s (hostCosts s imports) bodies.flatten) ≤
      min cap (operatorsCost s (hostCosts s imports) edited.flatten) := by
  induction edits with
  | refl => exact Nat.le_refl _
  | tail _ edit ih => exact Nat.le_trans ih edit.price_le

/-! ### Estimates -/

/-- The estimate of any module that can be read is its weight: the sum of the prices, held at the
cap. For two modules with one import section it does not fall where the bodies of the second arise
from those of the first by insertions, by heavier operators or by further bodies; it is the same
where their operators and bodies are reordered, and where the code section is the same. -/
theorem estimate_follows_weights (s : Schedule) {first second : Bytes} {before after : Outline}
    (readsFirst : Outline.ofBytes? first = some before)
    (readsSecond : Outline.ofBytes? second = some after)
    (sameImports : importSection? first = importSection? second) :
    ∃ gas gas', estimate? s first = some gas ∧ estimate? s second = some gas' ∧
      (gas = outlineWeight s before ∧ gas = min cap (outlineCost s before)) ∧
      (Edits (operatorWeight s before.imports) before.bodies after.bodies → gas ≤ gas') ∧
      (before.bodies.flatten.Perm after.bodies.flatten → gas = gas') ∧
      (codeSection? first = codeSection? second → gas = gas') := by
  obtain ⟨importsFirst, bodiesFirst⟩ := Outline.of_ofBytes? readsFirst
  obtain ⟨importsSecond, bodiesSecond⟩ := Outline.of_ofBytes? readsSecond
  have imports : before.imports = after.imports := by
    rw [sameImports, importsSecond] at importsFirst
    exact (Option.some.inj importsFirst).symm
  have weighs (edits : Edits (operatorWeight s before.imports) before.bodies after.bodies) :
      min cap (outlineCost s before) ≤ min cap (outlineCost s after) := by
    rw [outlineCost_eq, outlineCost_eq, ← imports]
    exact edits.price_le
  have reordered (same : before.bodies.flatten.Perm after.bodies.flatten) :
      min cap (outlineCost s before) = min cap (outlineCost s after) := by
    rw [outlineCost_eq, outlineCost_eq, ← imports, operatorsCost_eq_total, operatorsCost_eq_total,
      total_perm _ same]
  have unchanged (same : codeSection? first = codeSection? second) :
      min cap (outlineCost s before) = min cap (outlineCost s after) := by
    rw [same, bodiesSecond] at bodiesFirst
    rw [outlineCost_eq, outlineCost_eq, ← imports, Option.some.inj bodiesFirst]
  refine ⟨min cap (outlineCost s before), min cap (outlineCost s after), ?_, ?_,
    ⟨(outlineWeight_eq s before).symm, rfl⟩, weighs, reordered, unchanged⟩
  · rw [estimate?, readsFirst, Option.map_some]
  · rw [estimate?, readsSecond, Option.map_some]

/-- A module with a body that does nothing, one with a second body and a constant that is dropped
instead, the same with the bodies in the other order, and that with a section of its own. -/
theorem estimate_follows_weights_dropping :
    let framed (sections : Bytes) : Bytes := [0x00, 0x61, 0x73, 0x6d, 0x01, 0, 0, 0] ++ sections
    let idle := framed [3, 2, 1, 0, 10, 5, 1, 3, 0, 0x01, 0x0b]
    let dropping := framed [3, 3, 2, 0, 0, 10, 10, 2, 5, 0, 0x41, 7, 0x1a, 0x0b, 2, 0, 0x0b]
    let turned := framed [3, 3, 2, 0, 0, 10, 10, 2, 2, 0, 0x0b, 5, 0, 0x41, 7, 0x1a, 0x0b]
    let named := framed
      [0, 2, 1, 0x61, 3, 3, 2, 0, 0, 10, 10, 2, 2, 0, 0x0b, 5, 0, 0x41, 7, 0x1a, 0x0b]
    ∃ low high, low ≤ high ∧
      estimate? .standard idle = some low ∧ estimate? .standard dropping = some high ∧
      estimate? .standard turned = some high ∧ estimate? .standard named = some high := by
  intro framed idle dropping turned named
  have readsIdle : Outline.ofBytes? idle = some ⟨[], [[.plain 0x01, .plain 0x0b]]⟩ := by
    decide +kernel
  have readsDropping : Outline.ofBytes? dropping =
      some ⟨[], [[.plain 0x41, .plain 0x1a, .plain 0x0b], [.plain 0x0b]]⟩ := by
    decide +kernel
  have readsTurned : Outline.ofBytes? turned =
      some ⟨[], [[.plain 0x0b], [.plain 0x41, .plain 0x1a, .plain 0x0b]]⟩ := by
    decide +kernel
  have readsNamed : Outline.ofBytes? named =
      some ⟨[], [[.plain 0x0b], [.plain 0x41, .plain 0x1a, .plain 0x0b]]⟩ := by
    decide +kernel
  have heavier : Edit (operatorWeight .standard []) [[.plain 0x01, .plain 0x0b]]
      [[.plain 0x1a, .plain 0x0b]] := .replace [] [] [] [.plain 0x0b] (by decide)
  have inserted : Edit (operatorWeight .standard []) [[.plain 0x1a, .plain 0x0b]]
      [[.plain 0x41, .plain 0x1a, .plain 0x0b]] :=
    .insert [] [] [] [.plain 0x1a, .plain 0x0b] (.plain 0x41)
  have added : Edit (operatorWeight .standard []) [[.plain 0x41, .plain 0x1a, .plain 0x0b]]
      [[.plain 0x41, .plain 0x1a, .plain 0x0b], [.plain 0x0b]] :=
    .addBody [[.plain 0x41, .plain 0x1a, .plain 0x0b]] [] [.plain 0x0b]
  obtain ⟨low, high, ofIdle, ofDropping, -, grows, -, -⟩ :=
    estimate_follows_weights .standard readsIdle readsDropping (by decide +kernel)
  obtain ⟨_, high', again, ofTurned, -, -, reordered, -⟩ :=
    estimate_follows_weights .standard readsDropping readsTurned (by decide +kernel)
  obtain ⟨_, high'', again', ofNamed, -, -, -, unchanged⟩ :=
    estimate_follows_weights .standard readsTurned readsNamed (by decide +kernel)
  obtain rfl := Option.some.inj (ofDropping.symm.trans again)
  obtain rfl : high = high' := reordered (by decide)
  obtain rfl := Option.some.inj (ofTurned.symm.trans again')
  obtain rfl : high = high'' := unchanged (by decide +kernel)
  have edits := ((Relation.ReflTransGen.single heavier).tail inserted).tail added
  exact ⟨low, high, grows edits, ofIdle, ofDropping, ofTurned, ofNamed⟩

end Workbench.Gas
