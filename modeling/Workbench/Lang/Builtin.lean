import Workbench.Lang.ValueType

/-!
# Operations that the host provides

One table says everything about them: which may be called by name, what they take and give, and
under which name a module imports them. Storage is read and written through two entries without a
callable name. The order of the table is the order of a module's imports.
-/

namespace Workbench.Lang

/-- An operation of the host. -/
inductive Builtin where
  | caller
  | txOrigin
  | timestamp
  | emit
  | call
  | delegateCall
  | ecrecover
  | selfDestruct
  /-- A read of a storage slot. -/
  | storageLoad
  /-- A write to a storage slot. -/
  | storageStore
  deriving DecidableEq, Repr, Inhabited

namespace Builtin

/-- Every operation, in import order. -/
def all : List Builtin :=
  [caller, txOrigin, timestamp, emit, call, delegateCall, ecrecover, selfDestruct, storageLoad,
    storageStore]

theorem mem_all (b : Builtin) : b ∈ all := by
  cases b <;> decide

/-- The name under which the host offers the operation. -/
def importName : Builtin → String
  | caller => "caller"
  | txOrigin => "tx_origin"
  | timestamp => "timestamp"
  | emit => "emit"
  | call => "call"
  | delegateCall => "delegatecall"
  | ecrecover => "ecrecover"
  | selfDestruct => "selfdestruct"
  | storageLoad => "sload"
  | storageStore => "sstore"

/-- The namespace of all host operations. -/
def importModule : String := "env"

/-- The name by which a contract calls the operation; the storage accessors have none. -/
def callName? : Builtin → Option String
  | storageLoad | storageStore => none
  | b => some b.importName

def params : Builtin → List Ty
  | caller | txOrigin | timestamp | selfDestruct => []
  | emit | delegateCall | ecrecover | storageLoad => [.i32]
  | call | storageStore => [.i32, .i32]

def result : Builtin → Ty
  | emit | selfDestruct | storageStore => .unit
  | _ => .i32

/-- Whether the operation hands control to code outside the contract. -/
def isExternalCall : Builtin → Bool
  | call | delegateCall => true
  | _ => false

/-- Whether the operation may change something that outlives the call. -/
def changesState : Builtin → Bool
  | emit | call | delegateCall | selfDestruct | storageStore => true
  | _ => false

/-- The operation that a contract calls by the given name. -/
def ofCallName? (name : String) : Option Builtin :=
  all.find? fun b => b.callName? == some name

/-- The operation that the host offers under the given name. -/
def ofImportName? (name : String) : Option Builtin :=
  all.find? fun b => b.importName == name

theorem params_hasValue (b : Builtin) : ∀ t ∈ b.params, t.hasValue := by
  cases b <;> decide

end Builtin

end Workbench.Lang
