import Workbench.Codegen.Emit
import Workbench.Lang.Host
import Workbench.Wasm.Execution

/-!
# Linking modules with hosts

A module runs once each of its imports is one of the host operations, by name and by type. The
functions that it is given then ask the host.
-/

namespace Workbench.Codegen

open Lang (Builtin Host)
open Wasm (Module Import HostFunction Instance)

/-- The function that asks a host for an operation. -/
def hostFunction {State : Type} (host : Host State) (kind : Builtin) : HostFunction State where
  type := builtinType kind
  run args state :=
    match host.serve ⟨kind, args⟩ state with
    | (some value, state) => (some (if kind.result.hasValue then [value] else []), state)
    | (none, state) => (none, state)

/-- The operation that an import of a module means; none if the host has no such operation or if the
module takes it for one of another type. -/
def importedBuiltin? (m : Module) (i : Import) : Option Builtin :=
  if i.moduleName = Builtin.importModule then
    (Builtin.ofImportName? i.name).filter fun kind => m.type? i.type == some (builtinType kind)
  else none

/-- The operations that the imports of a module mean, in order. -/
def importedBuiltins? (m : Module) : Option (List Builtin) :=
  m.imports.mapM (importedBuiltin? m)

def link? {State : Type} (host : Host State) (m : Module) : Option (Instance State) :=
  (importedBuiltins? m).map fun kinds => ⟨m, kinds.map (hostFunction host)⟩

end Workbench.Codegen
