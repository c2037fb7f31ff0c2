import Workbench.Json.Basic
import Workbench.Lowered.Basic

/-!
# Interface descriptions

What callers of a contract need to know: one entry for each public function, in the order of the
declarations, with the names and types of what it takes and gives, and whether it can change state.
-/

namespace Workbench.Codegen

open Lang (Ty)
open Lowered (Function Contract)

/-- A value that a function takes or gives; results have no name. -/
structure InterfaceValue where
  name : String
  type : Ty
  deriving DecidableEq, Repr, Inhabited

/-- A function that can be called from outside. -/
structure InterfaceEntry where
  name : String
  inputs : List InterfaceValue
  outputs : List InterfaceValue
  isView : Bool
  deriving DecidableEq, Repr, Inhabited

def InterfaceEntry.ofFunction (f : Function) : InterfaceEntry :=
  { name := f.name
    inputs := f.params.map fun v => ⟨v.name, v.type⟩
    outputs := if f.result.hasValue then [⟨"", f.result⟩] else []
    isView := f.isView }

def interface (contract : Contract) : List InterfaceEntry :=
  (contract.functions.filter (·.isPublic)).map InterfaceEntry.ofFunction

/-! ### Encoding -/

def InterfaceValue.toJson (v : InterfaceValue) : Json :=
  .obj [("name", .str v.name), ("type", .str v.type.interfaceName)]

def InterfaceEntry.toJson (e : InterfaceEntry) : Json :=
  .obj
    [("type", .str "function"),
      ("name", .str e.name),
      ("inputs", .arr (e.inputs.map InterfaceValue.toJson)),
      ("outputs", .arr (e.outputs.map InterfaceValue.toJson)),
      ("stateMutability", .str (if e.isView then "view" else "nonpayable"))]

def interfaceJson (entries : List InterfaceEntry) : Json :=
  .arr (entries.map InterfaceEntry.toJson)

end Workbench.Codegen
