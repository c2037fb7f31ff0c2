import Workbench.Pipeline.Config
import Workbench.Seal.Sha256
import Workbench.Wasm.Module

/-!
# Seals of modules

A scheme computes a seal over the bytes of a finished module. Its name and the seal travel together
as the payload of a custom section at the end of the module, so a seal covers everything in front of
its section. A payload is the length of the name in one byte, the name and the seal.
-/

namespace Workbench.Seal

open Wasm (Bytes Custom)
open Pipeline (Setting)

/-! ### Schemes -/

/-- Something that a scheme does to its surroundings before it seals. -/
inductive Effect where
  | cancel
  | set (setting : Setting)
  deriving DecidableEq, Repr

structure Scheme where
  name : String
  /-- The seal over the bytes of a module. -/
  sealOf : Bytes → Bytes
  /-- What each sealing does first, in order. -/
  effects : List Effect

/-- Whether sealing cancels the compilation that asks for it. -/
def Scheme.cancels (scheme : Scheme) : Bool :=
  scheme.effects.contains .cancel

/-- The scheme where there is nothing to cancel. -/
def Scheme.withoutCancel (scheme : Scheme) : Scheme :=
  { scheme with effects := scheme.effects.filter fun effect => effect != .cancel }

/-- The digest of the module, with nothing done on the side. -/
def Scheme.digest : Scheme where
  name := "sha256-digest"
  sealOf := Sha256.digest
  effects := []

/-! ### Payloads -/

/-- The longest name that a payload can hold, in bytes. -/
def maxName : Nat := 255

/-- The payload of a name, cut to its longest length, and a seal. -/
def payload (name sealBytes : Bytes) : Bytes :=
  let name := name.take maxName
  name.length.toUInt8 :: (name ++ sealBytes)

def Scheme.payload (scheme : Scheme) (module : Bytes) : Bytes :=
  Seal.payload scheme.name.toUTF8.toList (scheme.sealOf module)

/-- The name and the seal of a payload; none if it is cut short or its name is not a text. -/
def ofPayload? : Bytes → Option (String × Bytes)
  | [] => none
  | length :: rest =>
      if rest.length < length.toNat then none
      else
        (String.fromUTF8? ⟨(rest.take length.toNat).toArray⟩).map fun name =>
          (name, rest.drop length.toNat)

/-- The section that carries a payload. -/
def sectionName : String := "usdtg.quantum"

def Scheme.section (scheme : Scheme) (module : Bytes) : Custom :=
  ⟨sectionName, scheme.payload module⟩

end Workbench.Seal
