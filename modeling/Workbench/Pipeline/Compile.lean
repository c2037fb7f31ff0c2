import Workbench.Check.Lowering
import Workbench.Codegen.Emit
import Workbench.Gas.Estimate
import Workbench.Lowered.Optimization
import Workbench.Pipeline.Result
import Workbench.Seal.Basic
import Workbench.Security.Scan
import Workbench.Syntax.Parser
import Workbench.Wasm.Validation

/-!
# Compiling

A compilation passes its stages in order: admission of the source, syntax, semantic checks,
security, optimization and code. In front of each stage, and once more behind the sealing of the
module, stands a checkpoint, where a cancellation is noticed; nothing stops a stage once it runs.

Sealing is the one step that waits for something outside. So a compilation comes in two parts:
`Compiler.start` runs it up to a module that may want a seal, and `Draft.finish` ends it. Settings
are taken once, at the start. `Compiler.compile` puts both together and lets the scheme have its
effects.
-/

namespace Workbench.Pipeline

open Source (Span Stage Diagnostic)
open Check (analyze)
open Lowered (Contract)
open Lowered.Optimization (Report)
open Security (Rule)
open Seal (Scheme Effect)
open Wasm (Bytes Module)

/-! ### Compilers -/

structure Compiler where
  config : Config
  rules : List Rule
  schedule : Gas.Schedule
  scheme : Scheme

namespace Compiler

/-- The compiler with the usual rules, prices and seals. -/
def standard (config : Config) : Compiler :=
  ⟨config, Security.defaultRules, .standard, .digest⟩

/-- The compiler after changes of its settings; impossible ones change nothing. -/
def trySet (p : Compiler) (setting : Setting) : Compiler :=
  { p with config := p.config.trySet setting }

def afterSealing (p : Compiler) : Compiler :=
  p.scheme.effects.foldl
    (fun p effect =>
      match effect with
      | .cancel => p
      | .set setting => p.trySet setting)
    p

end Compiler

/-! ### Checkpoints -/

/-- Where a cancellation is noticed. -/
inductive Checkpoint where
  | grammar
  | semantic
  | security
  | optimization
  | codegen
  /-- Behind the sealing of the module. -/
  | sealed
  deriving DecidableEq, Repr, Inhabited

def Checkpoint.stage : Checkpoint → Stage
  | grammar => .grammar
  | semantic => .semantic
  | security => .security
  | optimization => .optimization
  | codegen | sealed => .codegen

/-! ### Runs -/

/-- What a running compilation has reported so far. -/
structure Run where
  mode : Mode
  level : Nat
  warnings : List Diagnostic
  errors : List Diagnostic
  deriving Repr, Inhabited

namespace Run

/-- The result of a run that ends here. -/
def fail (run : Run) : Result :=
  ⟨run.mode, run.level, run.warnings, run.errors, none⟩

def succeed (run : Run) (artifact : Artifact) : Result :=
  ⟨run.mode, run.level, run.warnings, run.errors, some artifact⟩

/-- The run with one message more, among the errors or the warnings. -/
def report (run : Run) (d : Diagnostic) : Run :=
  if d.isError then { run with errors := run.errors ++ [d] }
  else { run with warnings := run.warnings ++ [d] }

def reportAll (run : Run) (ds : List Diagnostic) : Run :=
  { run with
    errors := run.errors ++ ds.filter Diagnostic.isError
    warnings := run.warnings ++ ds.filter fun d => !d.isError }

end Run

/-- The rest of a compilation, or the result with which it ended early. -/
abbrev Step (α : Type) := Except Result α

/-- The message that a compilation was cancelled in front of a stage. -/
def cancelledDiagnostic (stage : Stage) : Diagnostic :=
  ⟨stage, .error, cancelledCode, s!"compilation cancelled at the {stage.name} stage", ⟨0, 0⟩⟩

/-- Goes on with a run unless its cancellation is noticed. -/
def Run.pass (run : Run) (noticed : Checkpoint → Bool) (checkpoint : Checkpoint) : Step Unit :=
  if noticed checkpoint then .error (run.report (cancelledDiagnostic checkpoint.stage)).fail
  else .ok ()

/-! ### Stages -/

def oversizeDiagnostic (size limit : Nat) : Diagnostic :=
  ⟨.input, .error, oversizeCode, s!"source is {size} bytes, exceeding the {limit} byte limit",
    ⟨0, 0⟩⟩

/-- The message about what the optimizer did. -/
def optimizationDiagnostic (report : Report) (span : Span) : Diagnostic :=
  let counts :=
    s!"{report.folded} folded, {report.simplified} simplified, {report.removed} removed, " ++
      s!"{report.strengthReduced} strength-reduced"
  ⟨.optimization, .info, "O0001", s!"applied {report.total} rewrite(s): {counts}", span⟩

/-- The contract as code is made of it, with the message about what was changed. -/
def optimized (mode : Mode) (settings : Config) (contract : Contract) :
    Contract × List Diagnostic :=
  if mode.optimizes then
    let result := contract.optimize ⟨settings.optimizationLevel, settings.gasOptimization⟩
    let messages :=
      if 0 < result.report.total then [optimizationDiagnostic result.report contract.span] else []
    (result.value, messages)
  else (contract, [])

/-- A compilation with a finished module that is not sealed. -/
structure Draft where
  run : Run
  contract : Contract
  module : Module
  /-- Whether the module is to be sealed. -/
  wantsSeal : Bool

/-- The stages up to the module. -/
def draft (rules : List Rule) (settings : Config) (mode : Mode) (source : String)
    (noticed : Checkpoint → Bool) : Step Draft := do
  let run : Run := ⟨mode, mode.level settings, [], []⟩
  if settings.maxSourceSize < source.utf8ByteSize then
    throw (run.report (oversizeDiagnostic source.utf8ByteSize settings.maxSourceSize)).fail
  run.pass noticed .grammar
  match Syntax.parse source with
  | .error messages => throw (run.reportAll messages).fail
  | .ok tree =>
      run.pass noticed .semantic
      let analysis := analyze tree
      let run := run.reportAll analysis.diagnostics
      run.pass noticed .security
      let findings := Security.findings rules analysis.contract
      let run := run.reportAll (findings.map (·.diagnostic mode.failsOnCritical))
      if !run.errors.isEmpty then throw run.fail
      run.pass noticed .optimization
      let (contract, messages) := optimized mode settings analysis.contract
      let run := run.reportAll messages
      run.pass noticed .codegen
      return ⟨run, contract, Codegen.generate mode.keepsNames contract, settings.quantumSafety⟩

/-! ### The end of a compilation -/

def invalidModuleDiagnostic (span : Span) : Diagnostic :=
  ⟨.codegen, .error, "E0401", "generated module failed validation", span⟩

def noEstimateDiagnostic (span : Span) : Diagnostic :=
  ⟨.codegen, .error, "E0402", "gas estimation failed", span⟩

def artifact (mode : Mode) (contract : Contract) (module : Module) (gas : Nat) : Artifact :=
  match mode with
  | .simulation => ⟨none, [], gas⟩
  | _ => ⟨some module, Codegen.interface contract, gas⟩

namespace Draft

/-- The module with the section that holds its seal, if there is one. -/
def withSeal (d : Draft) (payload? : Option Bytes) : Module :=
  match payload? with
  | some payload => d.module.addCustom ⟨Seal.sectionName, payload⟩
  | none => d.module

/-- The result of a compilation whose module is sealed or needs no seal; `cancelled` tells whether a
cancellation was noticed by then. -/
def finish (d : Draft) (schedule : Gas.Schedule) (payload? : Option Bytes) (cancelled : Bool) :
    Result :=
  let module := d.withSeal payload?
  if cancelled then (d.run.report (cancelledDiagnostic .codegen)).fail
  else if !(module.isValid && module.withinLimits) then
    (d.run.report (invalidModuleDiagnostic d.contract.span)).fail
  else
    match Gas.estimate? schedule module.encode with
    | none => (d.run.report (noEstimateDiagnostic d.contract.span)).fail
    | some gas => d.run.succeed (artifact d.run.mode d.contract module gas)

/-- The payload of a scheme for a draft, if it wants one. -/
def payload? (d : Draft) (scheme : Scheme) : Option Bytes :=
  if d.wantsSeal then some (scheme.payload d.module.encode) else none

end Draft

/-! ### Whole compilations -/

namespace Compiler

/-- The first part of a compilation. It is refused if its settings are impossible. -/
def start (p : Compiler) (request : Request) (noticed : Checkpoint → Bool) :
    Except Refusal (Step Draft) :=
  (request.settings p.config).validate.map fun settings =>
    draft p.rules settings request.mode request.source noticed

/-- A whole compilation and the compiler behind it. A scheme that cancels does so before the last
checkpoint. -/
def compile (p : Compiler) (request : Request) (noticed : Checkpoint → Bool) :
    Except Refusal Result × Compiler :=
  match p.start request noticed with
  | .error refusal => (.error refusal, p)
  | .ok (.error result) => (.ok result, p)
  | .ok (.ok d) =>
      let cancelled := noticed .sealed || (d.wantsSeal && p.scheme.cancels)
      (.ok (d.finish p.schedule (d.payload? p.scheme) cancelled),
        if d.wantsSeal then p.afterSealing else p)

end Compiler

end Workbench.Pipeline
