import Workbench.Files.Disk

/-!
# Volumes

A volume is a disk in use: with a clock, and with the turns that the next calls take. A turn says
how far the clock moves on before the call and whether the call fails. Beyond its turns a volume
stands still and never fails by itself, so that most uses need none.
-/

namespace Workbench.Files

open Wasm (Bytes)

/-- What happens around one call. -/
structure Turn where
  /-- By how much the clock moves on. -/
  elapsed : Nat
  fault? : Option Fault
  deriving DecidableEq, Repr, Inhabited

structure Volume where
  disk : Disk
  now : Nat
  turns : List Turn
  deriving Repr, Inhabited

namespace Volume

/-- A volume without turns. -/
def ofDisk (disk : Disk) (now : Nat) : Volume :=
  ⟨disk, now, []⟩

/-- Takes the next turn: the volume behind it, and the fault if the call fails. -/
def turn (v : Volume) : Volume × Option Fault :=
  match v.turns with
  | [] => (v, none)
  | t :: rest => (⟨v.disk, v.now + t.elapsed, rest⟩, t.fault?)

/-- A call that only looks. -/
def query {α : Type} (look : Disk → Except Fault α) (v : Volume) : Except Fault α × Volume :=
  match v.turn with
  | (v, some fault) => (.error fault, v)
  | (v, none) => (look v.disk, v)

def change (act : Disk → Nat → Except Fault Disk) (v : Volume) : Except Fault Unit × Volume :=
  match v.turn with
  | (v, some fault) => (.error fault, v)
  | (v, none) =>
      match act v.disk v.now with
      | .error fault => (.error fault, v)
      | .ok disk => (.ok (), { v with disk := disk })

end Volume

end Workbench.Files
