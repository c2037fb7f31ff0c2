import Workbench.Proofs.Pipeline.Interruption
import Workbench.Proofs.Pipeline.Release

/-!
# Modes of a compilation

Three modes optimize: release, test and simulation. Compilations of one request in these modes, with
nothing to cancel them, come to the same contract and the same module. What differs is whether
critical findings are errors, and whether the artifact is kept.
-/

namespace Workbench.Pipeline

open Source (Stage Diagnostic)
open Check (analyze)
open Security (Rule Finding)

/-! ### The end of a draft -/

/-- What comes of a module: its estimate, or the message that ends its compilation. -/
def Draft.assay (d : Draft) (schedule : Gas.Schedule) (payload? : Option Wasm.Bytes) :
    Except Diagnostic Nat :=
  let module := d.withSeal payload?
  if !(module.isValid && module.withinLimits) then
    .error (invalidModuleDiagnostic d.contract.span)
  else
    match Gas.estimate? schedule module.encode with
    | none => .error (noEstimateDiagnostic d.contract.span)
    | some gas => .ok gas

/-- The end of a draft that nothing cancels, by what comes of its module. -/
theorem Draft.finish_eq (d : Draft) (schedule : Gas.Schedule) (payload? : Option Wasm.Bytes) :
    d.finish schedule payload? false =
      match d.assay schedule payload? with
      | .error message => (d.run.report message).fail
      | .ok gas => d.run.succeed (artifact d.run.mode d.contract (d.withSeal payload?) gas) := by
  unfold finish assay
  dsimp only
  by_cases unsound : !((d.withSeal payload?).isValid && (d.withSeal payload?).withinLimits)
  · simp only [unsound]
    rfl
  · simp only [unsound]
    cases Gas.estimate? schedule (d.withSeal payload?).encode with
    | none => rfl
    | some gas => rfl

/-! ### Findings -/

/-- A finding that is not critical is told alike in all modes. -/
theorem diagnostic_of_not_critical {finding : Finding} (h : finding.isCritical = false)
    (failOnCritical : Bool) : finding.diagnostic failOnCritical = finding.diagnostic false := by
  cases gravity : finding.gravity <;> simp_all [Finding.diagnostic, Finding.isCritical]

theorem isError_of_critical {finding : Finding} (h : finding.isCritical) :
    (finding.diagnostic true).isError := by
  cases gravity : finding.gravity <;>
    simp_all [Finding.diagnostic, Finding.isCritical, Diagnostic.isError]

/-- No finding about the contract of a source is critical. A source that cannot be read has none. -/
def CriticalFree (rules : List Rule) (source : String) : Prop :=
  ∀ tree, Syntax.parse source = .ok tree →
    ∀ finding ∈ Security.findings rules (analyze tree).contract, finding.isCritical = false

/-! ### Compilations in another mode -/

/-- The same run, of a compilation in another mode. -/
def Run.inMode (run : Run) (mode : Mode) : Run :=
  { run with mode }

/-- The same result, of a compilation in another mode. -/
def Result.inMode (result : Result) (mode : Mode) : Result :=
  { result with mode }

/-- The same draft, of a compilation in another mode. -/
def Draft.inMode (d : Draft) (mode : Mode) : Draft :=
  { d with run := d.run.inMode mode }

/-- The same step, of a compilation in another mode. -/
def Step.inMode (mode : Mode) : Step Draft → Step Draft
  | .error result => .error (result.inMode mode)
  | .ok d => .ok (d.inMode mode)

section

variable (rules : List Rule) (settings : Config) {mode : Mode} {source : String}

theorem scanned_inMode {tree : Syntax.Contract} (optimizes : mode.optimizes)
    (free : mode.failsOnCritical → ∀ finding ∈ Security.findings rules (analyze tree).contract,
      finding.isCritical = false) :
    Run.scanned rules mode settings tree =
      (Run.scanned rules .test settings tree).inMode mode := by
  have level : mode.level settings = Mode.test.level settings := by
    simp only [Mode.level, optimizes]
    rfl
  have told : (Security.findings rules (analyze tree).contract).map
        (·.diagnostic mode.failsOnCritical) =
      (Security.findings rules (analyze tree).contract).map
        (·.diagnostic Mode.test.failsOnCritical) := by
    cases strict : mode.failsOnCritical with
    | false => rfl
    | true =>
        exact List.map_congr_left fun finding mem =>
          diagnostic_of_not_critical (free strict finding mem) true
  simp only [Run.scanned, Run.checked, Run.opened, level, told]
  rfl

/-- The stages up to the module are those of the test mode in every mode that optimizes, unless it
fails on a critical finding. -/
theorem course_inMode (optimizes : mode.optimizes)
    (free : mode.failsOnCritical → CriticalFree rules source) :
    course rules settings mode source = (course rules settings .test source).inMode mode := by
  have level : mode.level settings = Mode.test.level settings := by
    simp only [Mode.level, optimizes]
    rfl
  have changed (contract : Lowered.Contract) :
      optimized mode settings contract = optimized .test settings contract := by
    simp only [optimized, optimizes]
    rfl
  have nameless : mode.keepsNames = Mode.test.keepsNames := by
    cases mode <;> first | rfl | cases optimizes
  unfold course
  split
  · simp only [Run.opened, level]
    rfl
  · cases parsed : Syntax.parse source with
    | error messages =>
        simp only [Run.opened, level]
        rfl
    | ok tree =>
        have scanned := scanned_inMode rules settings optimizes fun strict => free strict tree parsed
        simp only [verdict, drafted, Run.rewritten, scanned, changed, nameless]
        cases clean : (Run.scanned rules .test settings tree).errors.isEmpty <;>
          simp only [Run.inMode, clean] <;> rfl

end

/-! ### Results in another mode -/

/-- A result tells the same as another one, apart from what is kept of the artifact. -/
structure Result.Tells (a b : Result) : Prop where
  success : a.success = b.success
  warnings : a.warnings = b.warnings
  errors : a.errors = b.errors
  gas : a.gas = b.gas

theorem artifact_gas (mode : Mode) (contract : Lowered.Contract) (module : Wasm.Module) (gas : Nat) :
    (artifact mode contract module gas).gas = gas := by
  cases mode <;> rfl

theorem Draft.tells_inMode (d : Draft) (mode : Mode) (schedule : Gas.Schedule)
    (payload? : Option Wasm.Bytes) :
    ((d.inMode mode).finish schedule payload? false).Tells (d.finish schedule payload? false) := by
  have same : (d.inMode mode).assay schedule payload? = d.assay schedule payload? := by
    cases payload? <;> rfl
  rw [finish_eq, finish_eq, same]
  cases d.assay schedule payload? with
  | error message =>
      cases error : message.isError <;>
        exact ⟨rfl, by simp [Run.report, error, inMode, Run.inMode, Run.fail],
          by simp [Run.report, error, inMode, Run.inMode, Run.fail], rfl⟩
  | ok gas => exact ⟨rfl, rfl, rfl, by simp [Result.gas, Run.succeed, artifact_gas]⟩

theorem Step.tells_inMode (x : Step Draft) (mode : Mode) (schedule : Gas.Schedule)
    (payload? : Draft → Option Wasm.Bytes)
    (same : ∀ d, payload? (d.inMode mode) = payload? d) :
    ((x.inMode mode).result fun d => d.finish schedule (payload? d) false).Tells
      (x.result fun d => d.finish schedule (payload? d) false) := by
  cases x with
  | error result => exact ⟨rfl, rfl, rfl, rfl⟩
  | ok d =>
      show ((d.inMode mode).finish schedule (payload? (d.inMode mode)) false).Tells _
      rw [same]
      exact d.tells_inMode mode schedule (payload? d)

/-- A compilation that ends early has no artifact, and a draft is one for its mode. -/
theorem gives_course (rules : List Rule) (settings : Config) (mode : Mode) (source : String) :
    Step.Gives (fun result => result.artifact? = none) (fun d => d.run.mode = mode)
      (course rules settings mode source) := by
  unfold course verdict
  split
  · rfl
  · split
    · rfl
    · split
      · rfl
      · rfl

/-- Where its output is stored or shown, the mode does not count for an artifact. -/
theorem Draft.artifact?_inMode {d : Draft} (own : d.run.mode = .test) {mode : Mode}
    (kept : mode ≠ .simulation) (schedule : Gas.Schedule) (payload? : Option Wasm.Bytes) :
    ((d.inMode mode).finish schedule payload? false).artifact? =
      (d.finish schedule payload? false).artifact? := by
  have same : (d.inMode mode).assay schedule payload? = d.assay schedule payload? := by
    cases payload? <;> rfl
  rw [finish_eq, finish_eq, same]
  cases d.assay schedule payload? with
  | error message => rfl
  | ok gas =>
      show some (artifact mode _ _ _) = some (artifact d.run.mode _ _ _)
      rw [own, artifact_of_stored kept, artifact_of_stored (by decide)]
      rfl

theorem Step.artifact?_inMode {x : Step Draft} (course : Step.Gives
      (fun result => result.artifact? = none) (fun d => d.run.mode = .test) x)
    {mode : Mode} (kept : mode ≠ .simulation) (schedule : Gas.Schedule)
    (payload? : Draft → Option Wasm.Bytes) (same : ∀ d, payload? (d.inMode mode) = payload? d) :
    ((x.inMode mode).result fun d => d.finish schedule (payload? d) false).artifact? =
      (x.result fun d => d.finish schedule (payload? d) false).artifact? := by
  cases x with
  | error result => rfl
  | ok d =>
      show ((d.inMode mode).finish schedule (payload? (d.inMode mode)) false).artifact? = _
      rw [same]
      exact Draft.artifact?_inMode course kept schedule (payload? d)

/-- A simulation leaves neither code nor interface. -/
theorem Draft.nothing_left {d : Draft} (own : d.run.mode = .simulation) (schedule : Gas.Schedule)
    (payload? : Option Wasm.Bytes) :
    (d.finish schedule payload? false).bytecode = [] ∧
      (d.finish schedule payload? false).interface = [] := by
  rw [finish_eq]
  cases d.assay schedule payload? with
  | error message => exact ⟨rfl, rfl⟩
  | ok gas => simp [own, Run.succeed, artifact, Result.bytecode, Result.interface]

theorem Step.nothing_left {x : Step Draft} (course : Step.Gives
      (fun result => result.artifact? = none) (fun d => d.run.mode = .simulation) x)
    (schedule : Gas.Schedule) (payload? : Draft → Option Wasm.Bytes) :
    (x.result fun d => d.finish schedule (payload? d) false).bytecode = [] ∧
      (x.result fun d => d.finish schedule (payload? d) false).interface = [] := by
  cases x with
  | error result =>
      have none : result.artifact? = none := course
      simp [Step.result, Result.bytecode, Result.interface, none]
  | ok d => exact Draft.nothing_left course schedule (payload? d)

/-! ### Releases -/

/-- A release with a critical finding fails. -/
theorem fails_of_critical {rules : List Rule} {settings : Config} {source : String}
    (critical : ¬ CriticalFree rules source) (finish : Draft → Result) :
    ((course rules settings .release source).result finish).success = false := by
  simp only [CriticalFree, not_forall, Bool.not_eq_false] at critical
  obtain ⟨tree, parsed, finding, mem, critical⟩ := critical
  have error : finding.diagnostic true ∈ (Run.scanned rules .release settings tree).errors :=
    List.mem_append_right _
      (List.mem_filter.2 ⟨List.mem_map_of_mem mem, isError_of_critical critical⟩)
  have unclean : (Run.scanned rules .release settings tree).errors.isEmpty = false := by
    cases clean : (Run.scanned rules .release settings tree).errors.isEmpty with
    | false => rfl
    | true => exact absurd (List.isEmpty_iff.1 clean ▸ error) List.not_mem_nil
  unfold course
  split
  · rfl
  · simp only [parsed, verdict, unclean]
    rfl

/-- The errors that are older than the security stage do not depend on the mode. -/
theorem early_errors (rules : List Rule) (settings : Config) (source : String) (mode mode' : Mode)
    (finish finish' : Draft → Result)
    (keeps : ∀ d, (finish d).upTo .security = d.run.upTo .security)
    (keeps' : ∀ d, (finish' d).upTo .security = d.run.upTo .security) :
    (((course rules settings mode source).result finish).upTo .security).errors =
      (((course rules settings mode' source).result finish').upTo .security).errors := by
  unfold course
  split
  · rfl
  · cases parsed : Syntax.parse source with
    | error messages => rfl
    | ok tree =>
        have here := upTo_result (gives_checked rules settings mode tree (Nat.le_refl _)) keeps
        have there := upTo_result (gives_checked rules settings mode' tree (Nat.le_refl _)) keeps'
        simp only [here, there]
        rfl

/-! ### Three modes -/

/-- How the results of one request in the modes of release, test and simulation are related. -/
structure ModesDiffer (rules : List Rule) (source : String) (release test simulation : Result) :
    Prop where
  simulated : simulation.success = test.success
  released : release.success ↔ test.success ∧ CriticalFree rules source
  kept : release.success → release.bytecode = test.bytecode ∧ release.interface = test.interface ∧
    release.warnings = test.warnings ∧ release.gas = test.gas
  told : simulation.warnings = test.warnings ∧ simulation.errors = test.errors ∧
    simulation.gas = test.gas
  nothing : simulation.bytecode = [] ∧ simulation.interface = []
  early : ∀ e ∈ test.errors, e.stage = .input ∨ e.stage = .grammar ∨ e.stage = .semantic →
    e ∈ release.errors

theorem Result.same_artifact {a b : Result} (same : a.artifact? = b.artifact?) :
    a.bytecode = b.bytecode ∧ a.interface = b.interface := by
  simp [bytecode, interface, same]

/-- The results under settings that are possible. -/
theorem courses_differ (p : Compiler) (settings : Config) (source : String) :
    let finish (d : Draft) := d.finish p.schedule (d.payload? p.scheme) false
    let result (mode : Mode) := (course p.rules settings mode source).result finish
    ModesDiffer p.rules source (result .release) (result .test) (result .simulation) := by
  intro finish result
  have seals (mode : Mode) (d : Draft) : (d.inMode mode).payload? p.scheme = d.payload? p.scheme :=
    rfl
  have simulates : course p.rules settings .simulation source =
      (course p.rules settings .test source).inMode .simulation :=
    course_inMode p.rules settings rfl fun strict => nomatch strict
  have tells : (result .simulation).Tells (result .test) := by
    simp only [result, simulates]
    exact Step.tells_inMode _ _ _ _ (seals .simulation)
  have releases (free : CriticalFree p.rules source) :
      course p.rules settings .release source =
        (course p.rules settings .test source).inMode .release :=
    course_inMode p.rules settings rfl fun _ => free
  have alike (free : CriticalFree p.rules source) : (result .release).Tells (result .test) := by
    simp only [result, releases free]
    exact Step.tells_inMode _ _ _ _ (seals .release)
  have free_of_success (success : (result .release).success) : CriticalFree p.rules source := by
    by_contra critical
    exact Bool.false_ne_true ((fails_of_critical critical finish).symm.trans success)
  constructor
  case simulated => exact tells.success
  case released =>
    constructor
    · intro success
      have free := free_of_success success
      exact ⟨(alike free).success ▸ success, free⟩
    · rintro ⟨success, free⟩
      exact (alike free).success.trans success
  case kept =>
    intro success
    have free := free_of_success success
    have same : (result .release).artifact? = (result .test).artifact? := by
      simp only [result, releases free]
      exact Step.artifact?_inMode (gives_course _ _ _ _) (by decide) _ _ (seals .release)
    obtain ⟨bytecode, interface⟩ := Result.same_artifact same
    exact ⟨bytecode, interface, (alike free).warnings, (alike free).gas⟩
  case told => exact ⟨tells.warnings, tells.errors, tells.gas⟩
  case nothing => exact Step.nothing_left (gives_course p.rules settings .simulation source) _ _
  case early =>
    intro e mem stage
    have keeps (d : Draft) : (finish d).upTo .security = d.run.upTo .security :=
      d.upTo_finish _ _ _ _
    have same := early_errors p.rules settings source .test .release finish finish keeps keeps
    have before : isBefore .security e := by
      rcases stage with stage | stage | stage <;> simp [isBefore, stage, Stage.rank]
    have kept : e ∈ ((result .release).upTo .security).errors :=
      same ▸ List.mem_filter.2 ⟨mem, before⟩
    exact List.mem_of_mem_filter kept

/-- The modes differ only in what they are for. Compilations of one request in the modes of release,
test and simulation, with nothing to cancel them, are all refused for impossible settings, or have
results that are related as `ModesDiffer` says. -/
theorem modes_differ (p : Compiler) (quiet : p.scheme.cancels = false) (request : Request) :
    let compile (mode : Mode) := (p.compile { request with mode } fun _ => false).1
    (¬ (request.settings p.config).IsValid ∧ ∃ refusal, compile .release = .error refusal ∧
      compile .test = .error refusal ∧ compile .simulation = .error refusal) ∨
    ∃ release test simulation, compile .release = .ok release ∧ compile .test = .ok test ∧
      compile .simulation = .ok simulation ∧
      ModesDiffer p.rules request.source release test simulation := by
  intro compile
  have same (mode : Mode) : ({ request with mode } : Request).settings p.config =
      request.settings p.config := rfl
  simp only [compile, Compiler.compile_of_quiet quiet, same]
  cases valid : (request.settings p.config).validate with
  | error refusal =>
      refine .inl ⟨fun possible => ?_, refusal, rfl, rfl, rfl⟩
      rw [Config.validate_eq_ok_iff.2 ⟨possible, rfl⟩] at valid
      cases valid
  | ok settings => exact .inr ⟨_, _, _, rfl, rfl, rfl, courses_differ p settings request.source⟩

/-- The three results of a contract that destroys itself, which fails as a release. -/
theorem modes_differ_selfDestructing :
    (Compiler.standard .standard).scheme.cancels = false ∧
    let compile (mode : Mode) :=
      ((Compiler.standard .standard).compile (.plain selfDestructing mode) fun _ => false).1
    ∃ release test simulation, compile .release = .ok release ∧ compile .test = .ok test ∧
      compile .simulation = .ok simulation ∧
      ModesDiffer Security.defaultRules selfDestructing release test simulation ∧
      release.success = false := by
  refine ⟨rfl, ?_⟩
  intro compile
  rcases modes_differ (.standard .standard) rfl (.plain selfDestructing .test) with
    ⟨invalid, -⟩ | ⟨release, test, simulation, releases, tests, simulates, differ⟩
  · exact absurd (by decide) invalid
  · have fails : (compile .release).toOption.any (!·.success) = true := by decide +kernel
    have releases : compile .release = .ok release := releases
    have failed : release.success = false := by
      simpa [releases, Except.toOption] using fails
    exact ⟨release, test, simulation, releases, tests, simulates, differ, failed⟩

end Workbench.Pipeline
