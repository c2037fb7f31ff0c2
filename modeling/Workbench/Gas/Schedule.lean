/-!
# Prices

A schedule says what each kind of operator costs and what the host charges for its operations. All
amounts count together up to a cap, where they stay.
-/

namespace Workbench.Gas

/-- The price of a call of the host: a base and a charge for each byte that it touches. -/
structure HostCost where
  base : Nat
  perByte : Nat
  bytes : Nat
  deriving DecidableEq, Repr, Inhabited

def HostCost.total (c : HostCost) : Nat :=
  c.base + c.perByte * c.bytes

structure Schedule where
  zero : Nat
  base : Nat
  veryLow : Nat
  low : Nat
  mid : Nat
  high : Nat
  /-- Added for each byte that a load or store moves. -/
  memoryPerByte : Nat
  memoryGrow : Nat
  /-- A call of an import that the host table does not list. -/
  unknownHostCall : Nat
  host : List (String × HostCost)
  deriving DecidableEq, Repr, Inhabited

/-- The price of an import; only the host's own namespace is listed. -/
def Schedule.hostCost (s : Schedule) (moduleName name : String) : Nat :=
  match s.host.find? fun (n, _) => n == name with
  | some (_, cost) => if moduleName == "env" then cost.total else s.unknownHostCall
  | none => s.unknownHostCall

/-- The prices that hold unless others are given. -/
def Schedule.standard : Schedule where
  zero := 0
  base := 2
  veryLow := 3
  low := 5
  mid := 8
  high := 10
  memoryPerByte := 1
  memoryGrow := 1000
  unknownHostCall := 700
  host :=
    [("caller", ⟨2, 0, 0⟩),
      ("tx_origin", ⟨2, 0, 0⟩),
      ("timestamp", ⟨2, 0, 0⟩),
      ("sload", ⟨800, 3, 8⟩),
      ("sstore", ⟨5000, 3, 8⟩),
      ("emit", ⟨375, 8, 4⟩),
      ("call", ⟨700, 3, 8⟩),
      ("delegatecall", ⟨700, 3, 4⟩),
      ("ecrecover", ⟨3000, 3, 4⟩),
      ("selfdestruct", ⟨5000, 0, 0⟩)]

/-- The greatest amount; sums beyond it stay there. -/
def cap : Nat := 1 <<< 64 - 1

end Workbench.Gas
