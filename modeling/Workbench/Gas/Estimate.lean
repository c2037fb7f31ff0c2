import Workbench.Gas.Schedule
import Workbench.Wasm.Sections

/-!
# Estimates

The estimate of a module is the sum of the prices of all operators in all bodies. It is a property
of the text of the module: nothing is executed, and order does not matter.
-/

namespace Workbench.Gas

open Wasm (Operator Outline Bytes)

/-! ### Operators -/

/-- How many bytes a load or store moves; none for other operators. -/
def accessWidth? : Operator → Option Nat
  | .plain code =>
      let c := code.toNat
      if c ∈ [0x2c, 0x2d, 0x30, 0x31, 0x3a, 0x3c] then some 1
      else if c ∈ [0x2e, 0x2f, 0x32, 0x33, 0x3b, 0x3d] then some 2
      else if c ∈ [0x28, 0x2a, 0x34, 0x35, 0x36, 0x38, 0x3e] then some 4
      else if c ∈ [0x29, 0x2b, 0x37, 0x39] then some 8
      else none
  | .paged page code => if page == 0xfd && (code = 0 || code = 11) then some 16 else none
  | .call _ => none

/-- The price of an operator with an opcode of one byte that accesses no memory. What is not listed
is a constant, an access to a local or global, a comparison or cheap arithmetic. -/
def plainCost (s : Schedule) (code : UInt8) : Nat :=
  let c := code.toNat
  -- blocks, their ends, and what does nothing
  if c ∈ [0x00, 0x01, 0x02, 0x03, 0x05, 0x0b] then s.zero
  -- return, drop, selections and the size of memory
  else if c ∈ [0x0f, 0x1a, 0x1b, 0x1c, 0x3f] then s.base
  -- integer multiplication
  else if c ∈ [0x6c, 0x7e] then s.low
  -- division, remainder, square root and unconditional branches
  else if c ∈ [0x6d, 0x6e, 0x6f, 0x70, 0x7f, 0x80, 0x81, 0x82, 0x91, 0x95, 0x9f, 0xa3, 0x0c] then
    s.mid
  -- decisions and indirect calls
  else if c ∈ [0x04, 0x0d, 0x0e, 0x11] then s.high
  else if c = 0x40 then s.memoryGrow
  else s.veryLow

/-- The price of an operator; `imports` holds the prices of the imported functions. -/
def operatorCost (s : Schedule) (imports : List Nat) (operator : Operator) : Nat :=
  match accessWidth? operator with
  | some width => s.veryLow + s.memoryPerByte * width
  | none =>
      match operator with
      | .call function => imports[function]?.getD s.high
      | .plain code => plainCost s code
      | .paged page code => if page == 0xfc && (code = 10 || code = 11) then s.mid else s.veryLow

/-! ### Modules -/

/-- The prices of the imported functions, in order. -/
def importCosts (s : Schedule) (outline : Outline) : List Nat :=
  outline.imports.map fun (moduleName, name) => s.hostCost moduleName name

/-- The sum of the prices of all operators. -/
def outlineCost (s : Schedule) (outline : Outline) : Nat :=
  let imports := importCosts s outline
  (outline.bodies.flatten.map (operatorCost s imports)).foldl (· + ·) 0

/-- The estimate of a module in binary form; none if the module is malformed. -/
def estimate? (s : Schedule) (bytes : Bytes) : Option Nat :=
  (Outline.ofBytes? bytes).map fun outline => min cap (outlineCost s outline)

end Workbench.Gas
