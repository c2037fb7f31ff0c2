import Workbench.Proofs.Pipeline.Modes

/-!
# Results are consistent

A compilation can end at many places. Wherever it does, the parts of its result fit together: there
are errors exactly if there is no artifact, the messages are sorted by how grave they are and the
errors by their stages, and an artifact is that of the compiled contract with its price. What a run
has reported is followed through the stages as one invariant, and each end of a compilation is then
looked at once.
-/

namespace Workbench.Pipeline

open Source (Stage Diagnostic)
open Check (analyze)
open Security (Rule)

/-! ### Runs in order -/

/-- A run has reported what it should: errors among the errors and nothing else there, in the order
of their stages, none of them of a stage behind a given one. -/
structure Run.InOrder (asked : Mode) (settings : Config) (reached : Stage) (run : Run) : Prop where
  mode : run.mode = asked
  level : run.level = asked.level settings
  warnings : ∀ d ∈ run.warnings, d.isError = false
  errors : ∀ d ∈ run.errors, d.isError
  reached : ∀ d ∈ run.errors, d.stage.rank ≤ reached.rank
  sorted : run.errors.Pairwise fun a b => a.stage.rank ≤ b.stage.rank

namespace Run.InOrder

variable {mode : Mode} {settings : Config} {reached stage : Stage} {run : Run}

theorem opened (mode : Mode) (settings : Config) :
    (Run.opened mode settings).InOrder mode settings .input where
  mode := rfl
  level := rfl
  warnings := fun _ mem => nomatch mem
  errors := fun _ mem => nomatch mem
  reached := fun _ mem => nomatch mem
  sorted := .nil

/-- A stage that is not in front of what was reached so far reports its messages. -/
theorem reportAll (h : run.InOrder mode settings reached) {ds : List Diagnostic}
    (each : ∀ d ∈ ds, d.stage = stage) (later : reached.rank ≤ stage.rank) :
    (run.reportAll ds).InOrder mode settings stage := by
  have own : ∀ d ∈ ds.filter Diagnostic.isError, d.stage = stage :=
    fun d mem => each d (List.mem_of_mem_filter mem)
  refine ⟨h.mode, h.level, ?_, ?_, ?_, ?_⟩
  · refine List.forall_mem_append.2 ⟨h.warnings, fun d mem => ?_⟩
    simpa using (List.mem_filter.1 mem).2
  · exact List.forall_mem_append.2 ⟨h.errors, fun d mem => (List.mem_filter.1 mem).2⟩
  · exact List.forall_mem_append.2 ⟨fun d mem => Nat.le_trans (h.reached d mem) later,
      fun d mem => Nat.le_of_eq (congrArg Stage.rank (own d mem))⟩
  · refine List.pairwise_append.2 ⟨h.sorted, ?_, fun a ha b hb => ?_⟩
    · refine List.pairwise_of_forall_mem_list fun a ha b hb => Nat.le_of_eq ?_
      rw [own a ha, own b hb]
    · rw [own b hb]
      exact Nat.le_trans (h.reached a ha) later

/-- One error more is a stage that reports just that. -/
theorem report (h : run.InOrder mode settings reached) {d : Diagnostic} (error : d.isError)
    (later : reached.rank ≤ d.stage.rank) : (run.report d).InOrder mode settings d.stage := by
  have alone : run.report d = run.reportAll [d] := by
    simp [Run.report, Run.reportAll, error]
  rw [alone]
  exact h.reportAll (List.forall_mem_singleton.2 rfl) later

end Run.InOrder

/-! ### Ends of compilations -/

section

variable (mode : Mode) (settings : Config)

/-- A compilation has failed with errors in order. -/
structure Result.FailsInOrder (result : Result) : Prop where
  inOrder : ∃ reached run, Run.InOrder mode settings reached run ∧ result = run.fail
  errors : result.errors ≠ []

/-- A draft has met no error and holds the contract that becomes of a source. -/
structure Draft.InOrder (source : String) (d : Draft) : Prop where
  run : d.run.InOrder mode settings .optimization
  errors : d.run.errors = []
  contract : ∃ tree, Syntax.parse source = .ok tree ∧
    d.contract = (optimized mode settings (analyze tree).contract).1

variable {mode settings} {reached : Stage} {run : Run}

theorem Run.InOrder.fails (h : run.InOrder mode settings reached) (errors : run.errors ≠ []) :
    run.fail.FailsInOrder mode settings :=
  ⟨⟨reached, run, h, rfl⟩, errors⟩

/-- A run that ends with one error more has failed. -/
theorem Run.InOrder.fails_report (h : run.InOrder mode settings reached) {d : Diagnostic}
    (error : d.isError) (later : reached.rank ≤ d.stage.rank) :
    (run.report d).fail.FailsInOrder mode settings := by
  refine (h.report error later).fails ?_
  simp [Run.report, error]

/-- A run that notices its cancellation has failed; one that does not goes on. -/
theorem Run.InOrder.gives_pass (h : run.InOrder mode settings reached) {α : Type}
    {noticed : Checkpoint → Bool} {c : Checkpoint} (later : reached.rank ≤ c.stage.rank)
    {rest : Unit → Step α} {P : α → Prop}
    (onward : Step.Gives (Result.FailsInOrder mode settings) P (rest ())) :
    Step.Gives (Result.FailsInOrder mode settings) P (run.pass noticed c >>= rest) :=
  Step.gives_bind (Run.gives_pass run (h.fails_report rfl later) fun _ => onward)

end

/-- The stages up to the module end in order, with errors or with a draft. -/
theorem gives_inOrder (rules : List Rule) (settings : Config) (mode : Mode) (source : String)
    (noticed : Checkpoint → Bool) :
    Step.Gives (Result.FailsInOrder mode settings) (Draft.InOrder mode settings source)
      (draft rules settings mode source noticed) := by
  have opened := Run.InOrder.opened mode settings
  rw [draft_eq]
  split
  case isTrue large => exact opened.fails_report rfl (Nat.le_refl _)
  case isFalse =>
  refine opened.gives_pass (Nat.zero_le _) ?_
  split
  case h_1 messages parsed =>
    obtain ⟨some, errors⟩ := errors_of_parse parsed
    refine (opened.reportAll (stage_of_parse parsed) (Nat.zero_le _)).fails fun none => ?_
    have dropped : messages.filter Diagnostic.isError = [] := none
    exact some ((List.filter_eq_self.2 fun d mem => (errors d mem).2).symm.trans dropped)
  case h_2 tree parsed =>
  refine opened.gives_pass (Nat.zero_le _) ?_
  have checked : (Run.checked mode settings tree).InOrder mode settings .semantic :=
    opened.reportAll (stage_of_analyze tree) (Nat.zero_le _)
  refine checked.gives_pass (by decide) ?_
  have scanned : (Run.scanned rules mode settings tree).InOrder mode settings .security :=
    checked.reportAll (stage_of_findings _ _) (by decide)
  split
  case isFalse unclean => exact scanned.fails fun none => unclean (List.isEmpty_iff.2 none)
  case isTrue clean =>
  refine scanned.gives_pass (by decide) ?_
  have rewritten : (Run.rewritten rules mode settings tree).InOrder mode settings .optimization :=
    scanned.reportAll (stage_of_optimized mode settings _) (by decide)
  refine rewritten.gives_pass (by decide) ?_
  exact ⟨rewritten,
    (Run.errors_rewritten rules mode settings tree).trans (List.isEmpty_iff.1 clean),
    tree, parsed, rfl⟩

/-! ### Consistent results -/

/-- The parts of a result fit together, and fit what was asked for. -/
structure Result.Consistent (p : Compiler) (request : Request) (result : Result) : Prop where
  mode : result.mode = request.mode
  level : result.level =
    if request.mode = .debug then 0 else (request.settings p.config).optimizationLevel
  success_iff : result.success ↔ result.errors = []
  failed : result.success = false →
    result.bytecode = [] ∧ result.interface = [] ∧ result.gas = 0
  gas : result.success → request.mode ≠ .simulation →
    Gas.estimate? p.schedule result.bytecode = some result.gas
  interface : result.success → request.mode ≠ .simulation →
    ∃ tree, Syntax.parse request.source = .ok tree ∧ result.interface = Codegen.interface
      (optimized request.mode (request.settings p.config) (analyze tree).contract).1
  warnings : ∀ d ∈ result.warnings, d.severity ≠ .error
  errors : ∀ d ∈ result.errors, d.severity = .error
  /-- The errors stand in the order of their stages. -/
  sorted : result.errors.Pairwise fun a b => a.stage.rank ≤ b.stage.rank
  /-- No stage failed in front of the one that is said to have failed. -/
  failedStage : ∀ d ∈ result.errors,
    ∃ stage, result.failedStage? = some stage ∧ stage.rank ≤ d.stage.rank

section

variable {p : Compiler} {request : Request} {reached : Stage} {run : Run} {result : Result}

theorem Mode.level_eq (mode : Mode) (settings : Config) :
    mode.level settings = if mode = .debug then 0 else settings.optimizationLevel := by
  cases mode <;> rfl

/-- What a run in order has reported makes a consistent result with whatever it leaves, if this is
consistent with there being errors. -/
theorem Result.Consistent.of_run
    (inOrder : run.InOrder request.mode (request.settings p.config) reached)
    (artifact? : Option Artifact) (whether : artifact?.isSome ↔ run.errors = [])
    (stored : ∀ artifact ∈ artifact?, request.mode ≠ .simulation →
      (∃ module, artifact.module? = some module ∧
        Gas.estimate? p.schedule module.encode = some artifact.gas) ∧
      ∃ tree, Syntax.parse request.source = .ok tree ∧ artifact.interface = Codegen.interface
        (optimized request.mode (request.settings p.config) (analyze tree).contract).1) :
    Result.Consistent p request ⟨run.mode, run.level, run.warnings, run.errors, artifact?⟩ where
  mode := inOrder.mode
  level := inOrder.level.trans (Mode.level_eq _ _)
  success_iff := whether
  failed := by
    intro failed
    cases artifact? with
    | none => exact ⟨rfl, rfl, rfl⟩
    | some artifact => cases failed
  gas := by
    intro success kept
    obtain ⟨artifact, rfl⟩ := Option.isSome_iff_exists.1 success
    obtain ⟨⟨module, made, priced⟩, -⟩ := stored artifact rfl kept
    simpa [Result.bytecode, Result.gas, made] using priced
  interface := by
    intro success kept
    obtain ⟨artifact, rfl⟩ := Option.isSome_iff_exists.1 success
    exact (stored artifact rfl kept).2
  warnings := fun d mem => by simpa [Diagnostic.isError] using inOrder.warnings d mem
  errors := fun d mem => by simpa [Diagnostic.isError] using inOrder.errors d mem
  sorted := inOrder.sorted
  failedStage := by
    intro d mem
    have sorted := inOrder.sorted
    cases errors : run.errors with
    | nil => exact absurd (errors ▸ mem) List.not_mem_nil
    | cons first others =>
        rw [errors] at mem sorted
        refine ⟨first.stage, by simp [Result.failedStage?], ?_⟩
        rcases List.mem_cons.1 mem with rfl | later
        · exact Nat.le_refl _
        · exact (List.pairwise_cons.1 sorted).1 d later

theorem Result.FailsInOrder.consistent
    (h : result.FailsInOrder request.mode (request.settings p.config)) :
    result.Consistent p request := by
  obtain ⟨⟨reached, run, inOrder, rfl⟩, errors⟩ := h
  exact .of_run inOrder none (iff_of_false (fun h => nomatch h) errors) fun _ mem => nomatch mem

/-- However a draft is finished, the result is consistent. -/
theorem Draft.InOrder.consistent {d : Draft}
    (h : d.InOrder request.mode (request.settings p.config) request.source)
    (payload? : Option Wasm.Bytes) (cancelled : Bool) :
    (d.finish p.schedule payload? cancelled).Consistent p request := by
  have fails (message : Diagnostic) (error : message.isError) (code : message.stage = .codegen) :
      (d.run.report message).fail.Consistent p request :=
    (h.run.fails_report error (by rw [code]; decide)).consistent
  cases cancelled with
  | true => simpa [Draft.finish] using fails (cancelledDiagnostic .codegen) rfl rfl
  | false =>
  rw [Draft.finish_eq]
  cases assayed : d.assay p.schedule payload? with
  | error message =>
      have told : message.isError ∧ message.stage = .codegen := by
        unfold Draft.assay at assayed
        grind [invalidModuleDiagnostic, noEstimateDiagnostic, Diagnostic.isError]
      exact fails message told.1 told.2
  | ok gas =>
      have priced : Gas.estimate? p.schedule (d.withSeal payload?).encode = some gas := by
        unfold Draft.assay at assayed
        grind
      refine .of_run h.run _ (iff_of_true rfl h.errors) fun artifact mem kept => ?_
      obtain rfl := Option.mem_some_iff.1 mem
      obtain ⟨tree, parsed, contract⟩ := h.contract
      rw [h.run.mode, artifact_of_stored kept]
      exact ⟨⟨_, rfl, priced⟩, tree, parsed, congrArg Codegen.interface contract⟩

end

/-- A compilation has a result exactly if its settings are possible, and whatever it comes to, its
result is consistent. -/
theorem results_are_consistent (p : Compiler) (request : Request) (noticed : Checkpoint → Bool) :
    ((∃ result, (p.compile request noticed).1 = .ok result) ↔
      (request.settings p.config).IsValid) ∧
    ∀ result, (p.compile request noticed).1 = .ok result → result.Consistent p request := by
  rw [Compiler.compile_fst]
  cases valid : (request.settings p.config).validate with
  | error refusal =>
      refine ⟨iff_of_false (fun h => nomatch h) fun isValid => ?_, fun _ h => nomatch h⟩
      rw [Config.validate_eq_ok_iff.2 ⟨isValid, rfl⟩] at valid
      cases valid
  | ok settings =>
      obtain ⟨isValid, rfl⟩ := Config.validate_eq_ok_iff.1 valid
      refine ⟨iff_of_true ⟨_, rfl⟩ isValid, ?_⟩
      rintro result ⟨⟩
      have gives := gives_inOrder p.rules (request.settings p.config) request.mode request.source
        noticed
      cases drafts : draft p.rules (request.settings p.config) request.mode request.source
        noticed with
      | error early =>
          rw [drafts] at gives
          simpa only [drafts, Step.result] using Result.FailsInOrder.consistent gives
      | ok d =>
          rw [drafts] at gives
          simpa only [drafts, Step.result] using Draft.InOrder.consistent gives _ _

/-- A release that fails for a semantic error and, behind it, for a critical finding. -/
theorem results_are_consistent_twoStages :
    let request := Request.plain "contract T { function f() { x = 1; selfdestruct(); } }" .release
    (request.settings Config.standard).IsValid ∧
    ∃ result, ((Compiler.standard .standard).compile request fun _ => false).1 = .ok result ∧
      result.Consistent (.standard .standard) request ∧
      result.errors.map (·.stage) = [.semantic, .security] := by
  intro request
  have valid : (request.settings Config.standard).IsValid := by decide
  obtain ⟨exists_iff, consistent⟩ :=
    results_are_consistent (.standard .standard) request fun _ => false
  obtain ⟨result, compiles⟩ := exists_iff.2 valid
  have stages : (((Compiler.standard .standard).compile request fun _ => false).1.toOption.map
      fun r => r.errors.map (·.stage)) = some [.semantic, .security] := by
    decide +kernel
  rw [compiles] at stages
  exact ⟨valid, result, compiles, consistent result compiles,
    by simpa [Except.toOption] using stages⟩

end Workbench.Pipeline
