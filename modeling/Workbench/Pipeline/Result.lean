import Workbench.Codegen.Interface
import Workbench.Pipeline.Config
import Workbench.Source.Diagnostic
import Workbench.Wasm.Module

/-!
# Results of compilations

A compilation that starts always has a result. It carries what all stages reported and, only if
nothing failed, an artifact. A source that is too large and a compilation that was cancelled are
told by codes of their own.
-/

namespace Workbench.Pipeline

open Source (Diagnostic Stage)
open Codegen (InterfaceEntry)
open Wasm (Bytes Module)

/-! ### Results -/

/-- What a successful compilation leaves. -/
structure Artifact where
  /-- The module, sealed if that was asked for; none if only the gas was estimated. -/
  module? : Option Module
  interface : List InterfaceEntry
  gas : Nat
  deriving Repr, Inhabited

structure Result where
  mode : Mode
  /-- The level at which the optimizer ran. -/
  level : Nat
  /-- Messages that stop nothing. -/
  warnings : List Diagnostic
  /-- Messages that stop the compilation. -/
  errors : List Diagnostic
  artifact? : Option Artifact
  deriving Repr, Inhabited

def oversizeCode : String := "E0001"

def cancelledCode : String := "E0002"

namespace Result

/-- Whether there is an artifact. -/
def success (r : Result) : Bool :=
  r.artifact?.isSome

/-- The binary form of the module, empty without one. -/
def bytecode (r : Result) : Bytes :=
  ((r.artifact?.bind (·.module?)).map Module.encode).getD []

/-- The interface of the contract, empty without an artifact. -/
def interface (r : Result) : List InterfaceEntry :=
  (r.artifact?.map (·.interface)).getD []

/-- The estimate of the gas, zero without an artifact. -/
def gas (r : Result) : Nat :=
  (r.artifact?.map (·.gas)).getD 0

/-- The stage of the first error. -/
def failedStage? (r : Result) : Option Stage :=
  r.errors.head?.map (·.stage)

def hasError (r : Result) (code : String) : Bool :=
  r.errors.any fun d => d.code == code

def wasCancelled (r : Result) : Bool :=
  r.hasError cancelledCode

def wasOversize (r : Result) : Bool :=
  r.hasError oversizeCode

end Result

end Workbench.Pipeline
