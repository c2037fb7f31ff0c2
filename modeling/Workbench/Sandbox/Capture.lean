import Workbench.Text.Utf8
import Workbench.Wasm.Leb128

/-!
# Capturing output

The output of a process comes in chunks whose sizes mean nothing. Up to a limit it is kept; what
comes later is read and dropped, so the process never has to wait. An output that was cut, or that
could not be read to its end, counts as truncated.
-/

namespace Workbench.Sandbox

open Wasm (Bytes)

/-- An output as it is read. -/
structure Delivery where
  chunks : List Bytes
  /-- Whether reading ended in an error. -/
  broken : Bool
  deriving DecidableEq, Repr, Inhabited

/-- All bytes of an output. -/
def Delivery.stream (d : Delivery) : Bytes :=
  d.chunks.flatten

structure Captured where
  bytes : Bytes
  truncated : Bool
  deriving DecidableEq, Repr, Inhabited

namespace Captured

/-- What is kept before anything was read. -/
def empty : Captured := ⟨[], false⟩

/-- Keeps of a chunk what there is room for. -/
def add (limit : Nat) (c : Captured) (chunk : Bytes) : Captured :=
  let room := limit - c.bytes.length
  ⟨c.bytes ++ chunk.take room, c.truncated || room < chunk.length⟩

/-- The text of what was kept, and whether parts of it had to be replaced. -/
def text (c : Captured) : String × Bool :=
  Text.decodeLossy c.bytes

end Captured

/-- What is kept of an output. -/
def capture (limit : Nat) (d : Delivery) : Captured :=
  let kept := d.chunks.foldl (Captured.add limit) .empty
  { kept with truncated := kept.truncated || d.broken }

end Workbench.Sandbox
