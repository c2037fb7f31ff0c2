import Workbench.Json.Decode
import Workbench.Json.Writer
import Workbench.Pipeline.Result

/-!
# Encoded settings and results

Settings are read from records in which every field has a default. Results are only written; their
fields have a fixed order, since people read them too.
-/

namespace Workbench.Pipeline

open Source (Span Diagnostic)
open Wasm (Bytes)

/-! ### Settings -/

namespace Config

/-- The settings of a record; none if it is not one. -/
def ofJson? (value : Json) : Option Config := do
  let names := ["optimizationLevel", "quantumSafety", "gasOptimization", "maxSourceSize"]
  match ← Json.fields? names value with
  | [level, quantum, gas, size] =>
      return {
        optimizationLevel := ← Json.withDefault standard.optimizationLevel (Json.asNat? 8) level
        quantumSafety := ← Json.withDefault standard.quantumSafety Json.asBool? quantum
        gasOptimization := ← Json.withDefault standard.gasOptimization Json.asBool? gas
        maxSourceSize := ← Json.withDefault standard.maxSourceSize (Json.asNat? 64) size }
  | _ => none

def toJson (c : Config) : Json :=
  .obj
    [("optimizationLevel", .nat c.optimizationLevel),
      ("quantumSafety", .bool c.quantumSafety),
      ("gasOptimization", .bool c.gasOptimization),
      ("maxSourceSize", .nat c.maxSourceSize)]

end Config

/-- The mode of its encoded name. -/
def Mode.ofJson? (value : Json) : Option Mode :=
  value.asString?.bind Mode.ofName?

/-! ### Results -/

/-- The digits of a sequence of bytes, two a byte. -/
def hexText (bytes : Bytes) : String :=
  String.ofList (bytes.flatMap fun b =>
    [Json.hexDigit (b.toNat / 16), Json.hexDigit (b.toNat % 16)])

def spanJson (s : Span) : Json :=
  .obj [("start", .nat s.start), ("end", .nat s.stop)]

def diagnosticJson (d : Diagnostic) : Json :=
  .obj
    [("stage", .str d.stage.name),
      ("severity", .str d.severity.name),
      ("code", .str d.code),
      ("message", .str d.message),
      ("span", spanJson d.span)]

/-- The members of a result that do not depend on when it was made. -/
def Result.members (r : Result) : List (String × Json) :=
  [("success", .bool r.success),
    ("bytecode", .str (hexText r.bytecode)),
    ("abi", Codegen.interfaceJson r.interface),
    ("warnings", .arr (r.warnings.map diagnosticJson)),
    ("errors", .arr (r.errors.map diagnosticJson)),
    ("gasEstimate", .nat r.gas),
    ("optimizationLevel", .nat r.level),
    ("mode", .str r.mode.name)]

end Workbench.Pipeline
