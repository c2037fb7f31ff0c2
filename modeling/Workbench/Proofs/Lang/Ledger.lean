import Workbench.Lang.Host

/-!
# Hosts with storage

The hosts that contracts are written for: reads and writes of storage act on a store of words, and
every other request is answered from what has been requested so far. What such a host remembers is
all that can be seen of a run from outside.
-/

namespace Workbench.Lang

/-- A store of words and the requests so far, the latest first. -/
structure Ledger where
  storage : Word → Word
  requests : List HostCall

namespace Ledger

/-- The ledger with a word written to a slot. -/
def write (ledger : Ledger) (slot value : Word) : Ledger :=
  { ledger with storage := fun s => if s = slot then value else ledger.storage s }

/-- The ledger with one more request. -/
def note (ledger : Ledger) (call : HostCall) : Ledger :=
  { ledger with requests := call :: ledger.requests }

/-- The host with storage that answers every other request as the requests so far ask for, the one
to be answered first. It may also stop the run. -/
def host (answer : List HostCall → Option Word) : Host Ledger where
  serve call ledger :=
    let noted := ledger.note call
    match call.kind, call.args with
    | .storageLoad, [slot] => (some (ledger.storage slot), noted)
    | .storageStore, [slot, value] => (some 0, noted.write slot value)
    | _, _ => (answer noted.requests, noted)

variable (answer : List HostCall → Option Word) (ledger : Ledger)

theorem serve_load (slot : Word) :
    (host answer).serve ⟨.storageLoad, [slot]⟩ ledger =
      (some (ledger.storage slot), ledger.note ⟨.storageLoad, [slot]⟩) := rfl

theorem serve_store (slot value : Word) :
    (host answer).serve ⟨.storageStore, [slot, value]⟩ ledger =
      (some 0, (ledger.note ⟨.storageStore, [slot, value]⟩).write slot value) := rfl

/-- Only a write changes the store. -/
theorem storage_serve_of_callName {kind : Builtin} (callable : kind.callName?.isSome)
    (args : List Word) : ((host answer).serve ⟨kind, args⟩ ledger).2.storage = ledger.storage := by
  cases kind <;> first | rfl | contradiction

end Ledger

end Workbench.Lang
