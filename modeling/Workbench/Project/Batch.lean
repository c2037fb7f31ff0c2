import Workbench.Files.Disk
import Workbench.Pipeline.Compile

/-!
# Compiling projects

The sources of a project are the files with the source extension below its directory, hidden ones
and those in hidden directories apart. Each is compiled by itself, in the order of their places,
under the settings that the pipeline had when the batch began. A source that cannot be read has a
failed result of its own.
-/

namespace Workbench.Project

open Files (Place Node Disk Fault)
open Pipeline (Mode Config Refusal Request Result Compiler Run)
open Source (Diagnostic)

/-! ### Sources -/

def sourceExtension : String := "usdtg"

def isSourceName (name : String) : Bool :=
  (Files.splitExtension name).2 == some sourceExtension

/-- Whether a place below a project is that of a source. -/
def isSource (place : Place) (node : Node) : Bool :=
  !node.isDirectory && !place.any Files.isHidden && (place.getLast?.any isSourceName)

/-- The sources below a directory, in order. -/
def sources (d : Disk) (top : Place) : List Place :=
  ((d.below top).filter fun (place, node) => isSource place node).map (·.1)

/-- The sources of what a path leads to. A file in the place of the directory is its only source,
with nothing for a path. -/
def sourcesAt (d : Disk) (path : String) : Except Fault (Place × List Place) :=
  match d.locate path with
  | .error fault => .error fault
  | .ok (place, .directory) => .ok (place, sources d place)
  | .ok (place, .file ..) =>
      .ok (place, if (Files.fileName? path).any isSourceName then [[]] else [])

/-! ### Batches -/

structure FileResult where
  /-- The place of the source below the directory of the project. -/
  place : Place
  result : Result
  deriving Repr, Inhabited

def unreadableDiagnostic (place : Place) (fault : Fault) : Diagnostic :=
  ⟨.input, .error, "E0003", s!"cannot read {place.text}: {fault.text}", ⟨0, 0⟩⟩

/-- The text of a source of a project. Below a file there is none. -/
def readSource (d : Disk) (top place : Place) : Except Fault String :=
  match d.stat top with
  | .ok (.file ..) => .error .notDirectory
  | _ => d.readText (top ++ place)

/-- A request that fixes all settings. -/
def requestUnder (settings : Config) (source : String) (mode : Mode) : Request :=
  ⟨source, mode, some settings.optimizationLevel, some settings.quantumSafety,
    some settings.gasOptimization⟩

/-- The result of one source, and the pipeline behind it. -/
def compileSource (settings : Config) (mode : Mode) (d : Disk) (top place : Place) (p : Compiler) :
    Except Refusal FileResult × Compiler :=
  match readSource d top place with
  | .error fault =>
      let run : Run := ⟨mode, mode.level settings, [], []⟩
      (.ok ⟨place, (run.report (unreadableDiagnostic place fault)).fail⟩, p)
  | .ok source =>
      -- Nothing can cancel the compilations of a batch.
      match { p with scheme := p.scheme.withoutCancel }.compile (requestUnder settings source mode)
        (fun _ => false) with
      | (.ok result, after) => (.ok ⟨place, result⟩, { p with config := after.config })
      | (.error refusal, after) => (.error refusal, { p with config := after.config })

def compileSources (settings : Config) (mode : Mode) (d : Disk) (top : Place) (p : Compiler) :
    List Place → Except Refusal (List FileResult) × Compiler
  | [] => (.ok [], p)
  | place :: rest =>
      match compileSource settings mode d top place p with
      | (.error refusal, p) => (.error refusal, p)
      | (.ok first, p) =>
          match compileSources settings mode d top p rest with
          | (.error refusal, p) => (.error refusal, p)
          | (.ok others, p) => (.ok (first :: others), p)

/-- The refusal of a project whose directory cannot be read; `shown` is its path as messages show
it. -/
def unreadable (shown : String) (fault : Fault) : Refusal :=
  .unreadableProject shown s!"IO error for operation on {shown}: {fault.text}"

/-- Compiles the project that a path leads to; `shown` is the path as messages show it. -/
def compileProject (p : Compiler) (d : Disk) (path shown : String) (mode : Mode) :
    Except Refusal (List FileResult) × Compiler :=
  match sourcesAt d path with
  | .error fault => (.error (unreadable shown fault), p)
  | .ok (top, places) => compileSources p.config mode d top p places

end Workbench.Project
