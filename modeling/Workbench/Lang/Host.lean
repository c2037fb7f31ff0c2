import Workbench.Lang.Builtin
import Workbench.Lang.Word

/-!
# Hosts

A contract runs inside a host and reaches the world only through requests to it: an operation with
its arguments. A host answers from a state of its own, so storage, balances or a record of all
requests are all the same to a contract. A host can also stop a run instead of answering.
-/

namespace Workbench.Lang

/-- A request of a contract to its host. -/
structure HostCall where
  kind : Builtin
  args : List Word
  deriving DecidableEq, Repr, Inhabited

structure Host (State : Type) where
  /-- The answer to a request, or none if the host stops the run, and the state behind it. Where an
  operation gives no value the answer means nothing. -/
  serve : HostCall → State → Option Word × State

/-- The host that serves as another one does and records every request, the latest first. -/
def Host.recording {State : Type} (host : Host State) : Host (State × List HostCall) where
  serve call := fun (state, calls) =>
    let (answer?, state) := host.serve call state
    (answer?, (state, call :: calls))

end Workbench.Lang
