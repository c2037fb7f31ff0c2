import Workbench.Proofs.Codegen.Correctness
import Workbench.Proofs.Codegen.Validity
import Workbench.Proofs.Pipeline.Cancellation

/-!
# Compilations make valid modules

A compilation that comes to its module has met no error before, so the module is that of an accepted
contract and valid. What is left to refuse it for are the limits of implementations.
-/

namespace Workbench.Pipeline

open Source (Diagnostic Stage)
open Check (analyze Accepts)
open Codegen (LoweredFrom Denotes generate)
open Lowered (Contract)
open Security (Rule)

/-! ### Errors before the code -/

/-- All errors at the stage of code are about cancellations. -/
def BeforeCode (errors : List Diagnostic) : Prop :=
  ∀ d ∈ errors, d.stage = .codegen → d.code = cancelledCode

theorem BeforeCode.append {errors more : List Diagnostic} (h : BeforeCode errors)
    (others : BeforeCode more) : BeforeCode (errors ++ more) :=
  List.forall_mem_append.2 ⟨h, others⟩

theorem BeforeCode.of_stage {errors : List Diagnostic} {stage : Stage}
    (h : ∀ d ∈ errors, d.stage = stage) (other : stage ≠ .codegen) : BeforeCode errors :=
  fun d mem code => absurd ((h d mem).symm.trans code) other

theorem BeforeCode.cancelled {run : Run} (h : BeforeCode run.errors) (stage : Stage) :
    BeforeCode (run.report (cancelledDiagnostic stage)).fail.errors :=
  h.append (List.forall_mem_singleton.2 fun _ => rfl)

theorem BeforeCode.reportAll {run : Run} (h : BeforeCode run.errors) {ds : List Diagnostic}
    {stage : Stage} (each : ∀ d ∈ ds, d.stage = stage) (other : stage ≠ .codegen) :
    BeforeCode (run.reportAll ds).errors :=
  h.append (.of_stage (fun d mem => each d (List.mem_of_mem_filter mem)) other)

/-- An error about syntax. -/
def IsSyntaxError (d : Diagnostic) : Prop :=
  d.stage = .grammar ∧ d.isError

theorem isSyntaxError_of_add {state : Syntax.Lexed.Placing}
    (h : ∀ d ∈ state.diagnostics, IsSyntaxError d) (lexeme : Syntax.Lexeme) :
    ∀ d ∈ (state.add lexeme).diagnostics, IsSyntaxError d := by
  cases lexeme with
  | malformedNumber cs => exact List.forall_mem_cons.2 ⟨⟨rfl, rfl⟩, h⟩
  | stray c =>
      refine List.forall_mem_append.2 ⟨fun d mem => ?_, h⟩
      obtain ⟨i, -, rfl⟩ := List.mem_map.1 (List.mem_reverse.1 mem)
      exact ⟨rfl, rfl⟩
  | _ => exact h

theorem isSyntaxError_of_lex (source : String) :
    ∀ d ∈ (Syntax.lex source).diagnostics, IsSyntaxError d := by
  have placed (pieces : List Syntax.Lexeme) (state : Syntax.Lexed.Placing)
      (h : ∀ d ∈ state.diagnostics, IsSyntaxError d) :
      ∀ d ∈ (pieces.foldl Syntax.Lexed.Placing.add state).diagnostics, IsSyntaxError d := by
    induction pieces generalizing state with
    | nil => exact h
    | cons lexeme rest ih => exact ih _ (isSyntaxError_of_add h lexeme)
  intro d mem
  exact placed _ ⟨[], [], 0⟩ (fun _ h => nomatch h) d (List.mem_reverse.1 mem)

/-- What the reader reports are errors about syntax, at least one. -/
theorem errors_of_parse {source : String} {messages : List Diagnostic}
    (h : Syntax.parse source = .error messages) :
    messages ≠ [] ∧ ∀ d ∈ messages, IsSyntaxError d := by
  unfold Syntax.parse at h
  dsimp only at h
  split at h
  · split at h
    · contradiction
    · cases h
      exact ⟨List.cons_ne_nil _ _, List.forall_mem_singleton.2 ⟨rfl, rfl⟩⟩
  · next some =>
    cases h
    exact ⟨fun none => some (List.isEmpty_iff.2 none), isSyntaxError_of_lex source⟩

theorem stage_of_parse {source : String} {messages : List Diagnostic}
    (h : Syntax.parse source = .error messages) : ∀ d ∈ messages, d.stage = .grammar :=
  fun d mem => ((errors_of_parse h).2 d mem).1

theorem stage_of_analyze (tree : Syntax.Contract) :
    ∀ d ∈ (analyze tree).diagnostics, d.stage = .semantic := by
  intro d mem
  obtain ⟨problem, -, rfl⟩ := List.mem_map.1 mem
  rfl

theorem stage_of_findings (failOnCritical : Bool) (findings : List Security.Finding) :
    ∀ d ∈ findings.map (·.diagnostic failOnCritical), d.stage = .security := by
  intro d mem
  obtain ⟨finding, -, rfl⟩ := List.mem_map.1 mem
  rfl

/-! ### Drafts -/

/-- A draft holds the module of an accepted contract, which is that of the source, and no errors. -/
structure Draft.Accepted (d : Draft) (mode : Mode) (source : String) (tree : Syntax.Contract) :
    Prop where
  errors : d.run.errors = []
  parsed : Syntax.parse source = .ok tree
  accepted : Accepts tree
  lowered : LoweredFrom tree d.contract
  module : d.module = generate mode.keepsNames d.contract

theorem errors_reportAll (run : Run) {ds : List Diagnostic}
    (none : ds.filter Diagnostic.isError = []) : (run.reportAll ds).errors = run.errors := by
  simp [Run.reportAll, none]

theorem optimized_lowered (mode : Mode) (settings : Config) (tree : Syntax.Contract) :
    LoweredFrom tree (optimized mode settings (analyze tree).contract).1 := by
  unfold optimized
  split
  · exact .optimized _
  · exact .plain

theorem optimized_messages (mode : Mode) (settings : Config) (contract : Contract) :
    (optimized mode settings contract).2.filter Diagnostic.isError = [] := by
  unfold optimized
  dsimp only
  split
  · split <;> rfl
  · rfl

/-- Nothing is reported about a contract behind whose check there are no errors. -/
theorem accepts_of_clean {run : Run} {tree : Syntax.Contract} {findings : List Diagnostic}
    (clean : ((run.reportAll (analyze tree).diagnostics).reportAll findings).errors = []) :
    Accepts tree := by
  obtain ⟨checked, -⟩ := List.append_eq_nil_iff.1 clean
  obtain ⟨-, none⟩ := List.append_eq_nil_iff.1 checked
  intro d mem error
  exact List.not_mem_nil (none ▸ List.mem_filter.2 ⟨mem, by simp [Diagnostic.isError, error]⟩)

theorem gives_accepted (rules : List Rule) (settings : Config) (mode : Mode) (source : String)
    (noticed : Checkpoint → Bool) :
    Step.Gives (fun result => BeforeCode result.errors)
      (fun d => ∃ tree, d.Accepted mode source tree)
      (draft rules settings mode source noticed) := by
  have none : BeforeCode (Run.mk mode (mode.level settings) [] []).errors := fun _ h => nomatch h
  unfold draft
  dsimp only
  split
  · exact Step.gives_throw_bind (none.append (List.forall_mem_singleton.2 fun h => nomatch h))
  refine Step.gives_bind (Run.gives_pass _ (none.cancelled _) fun _ => ?_)
  split
  case h_1 messages parsed => exact none.reportAll (stage_of_parse parsed) (by decide)
  case h_2 tree parsed =>
  refine Step.gives_bind (Run.gives_pass _ (none.cancelled _) fun _ => ?_)
  have checked := none.reportAll (stage_of_analyze tree) (by decide)
  refine Step.gives_bind (Run.gives_pass _ (checked.cancelled _) fun _ => ?_)
  have scanned := checked.reportAll
    (stage_of_findings mode.failsOnCritical (Security.findings rules (analyze tree).contract))
    (by decide)
  split
  case isTrue => exact Step.gives_throw_bind scanned
  case isFalse clean =>
  have clean := List.isEmpty_iff.1 (by simpa using clean)
  have unchanged (run : Run) :
      (run.reportAll (optimized mode settings (analyze tree).contract).2).errors = run.errors :=
    errors_reportAll run (optimized_messages mode settings (analyze tree).contract)
  refine Step.gives_bind (Run.gives_pass _ (scanned.cancelled _) fun _ => ?_)
  have changed := (unchanged _).symm ▸ scanned
  refine Step.gives_bind (Run.gives_pass _ (changed.cancelled _) fun _ => ?_)
  exact ⟨tree, (unchanged _).trans clean, parsed, accepts_of_clean clean,
    optimized_lowered mode settings tree, rfl⟩

/-! ### Whole compilations -/

theorem Draft.Accepted.isValid {d : Draft} {mode : Mode} {source : String}
    {tree : Syntax.Contract} (h : d.Accepted mode source tree) : d.module.isValid := by
  rw [h.module]
  exact Codegen.isValid_generate _ _ (h.lowered.typed h.accepted)
    (h.lowered.names_nodup h.accepted)

/-- A seal does not count for the validity of a module. -/
theorem Draft.isValid_withSeal (d : Draft) (payload? : Option Wasm.Bytes) :
    (d.withSeal payload?).isValid = d.module.isValid := by
  cases payload? <;> rfl

theorem Draft.withinLimits_withSeal (d : Draft) (payload? : Option Wasm.Bytes) :
    (d.withSeal payload?).withinLimits = d.module.withinLimits := by
  cases payload? <;> rfl

/-- A compilation is ended at the validation of its module. -/
def Result.RefusesModule (result : Result) : Prop :=
  ∃ e ∈ result.errors, e.stage = .codegen ∧ e.code = "E0401"

theorem BeforeCode.not_refusesModule {result : Result} (h : BeforeCode result.errors) :
    ¬ result.RefusesModule := by
  rintro ⟨e, mem, stage, code⟩
  exact absurd ((h e mem stage).symm.trans code) (by decide)

theorem Run.not_refusesModule {run : Run} (errors : run.errors = []) {d : Diagnostic}
    (code : d.code ≠ "E0401") : ¬ (run.report d).fail.RefusesModule := by
  rintro ⟨e, mem, -, same⟩
  unfold Run.report Run.fail at mem
  split at mem
  · rw [errors] at mem
    cases List.mem_singleton.1 mem
    exact code same
  · rw [errors] at mem
    contradiction

/-- A finished module that is valid is refused exactly for the limits of implementations. -/
theorem Draft.refusesModule_finish_iff {d : Draft} (schedule : Gas.Schedule)
    (payload? : Option Wasm.Bytes) {cancelled : Bool} (errors : d.run.errors = [])
    (valid : d.module.isValid) :
    (d.finish schedule payload? cancelled).RefusesModule ↔
      cancelled = false ∧ d.module.withinLimits = false := by
  have checked : ((d.withSeal payload?).isValid && (d.withSeal payload?).withinLimits) =
      d.module.withinLimits := by
    rw [d.isValid_withSeal, d.withinLimits_withSeal, valid, Bool.true_and]
  unfold Draft.finish
  dsimp only
  rw [checked]
  cases cancelled with
  | true =>
      have passed := Run.not_refusesModule errors (d := cancelledDiagnostic .codegen) (by decide)
      simp [passed]
  | false =>
      cases d.module.withinLimits with
      | false =>
          refine iff_of_true ⟨invalidModuleDiagnostic d.contract.span, ?_, rfl, rfl⟩ ⟨rfl, rfl⟩
          exact List.mem_append_right _ (List.mem_singleton_self _)
      | true =>
          refine iff_of_false ?_ (fun h => nomatch h.2)
          cases Gas.estimate? schedule (d.withSeal payload?).encode with
          | none =>
              exact Run.not_refusesModule errors (d := noEstimateDiagnostic d.contract.span)
                (by simp [noEstimateDiagnostic])
          | some gas =>
              rintro ⟨e, mem, -⟩
              have mem : e ∈ d.run.errors := mem
              rw [errors] at mem
              contradiction

theorem Compiler.start_accepted {p : Compiler} {request : Request} {noticed : Checkpoint → Bool} :
    ∀ step, p.start request noticed = .ok step →
      Step.Gives (fun result => BeforeCode result.errors)
        (fun d => ∃ tree, d.Accepted request.mode request.source tree) step := by
  intro step starts
  obtain ⟨settings, -, rfl⟩ := Compiler.start_eq_ok_iff.1 starts
  exact gives_accepted p.rules settings request.mode request.source noticed

/-- A compilation is ended at the validation of its module exactly if it is not cancelled before and
the module, which is that of an accepted contract, exceeds the limits of implementations. -/
theorem Compiler.refusesModule_compile_iff {p : Compiler} {request : Request}
    {noticed : Checkpoint → Bool} {result : Result}
    (compiles : (p.compile request noticed).1 = .ok result) :
    result.RefusesModule ↔ ∃ d, p.start request noticed = .ok (.ok d) ∧
      (noticed .sealed || (d.wantsSeal && p.scheme.cancels)) = false ∧
      d.module.withinLimits = false := by
  rcases Compiler.compile_eq_ok_iff.1 compiles with early | ⟨d, starts, rfl⟩
  · refine iff_of_false (BeforeCode.not_refusesModule (Compiler.start_accepted _ early)) ?_
    rintro ⟨d, starts, -⟩
    cases early.symm.trans starts
  · obtain ⟨tree, accepted⟩ := Compiler.start_accepted _ starts
    rw [Draft.refusesModule_finish_iff _ _ accepted.errors accepted.isValid]
    constructor
    · exact fun h => ⟨d, starts, h⟩
    · rintro ⟨d', starts', h⟩
      cases starts.symm.trans starts'
      exact h

/-- The module that is made of an accepted contract is valid, and its positions mean what they are
there for. Every compilation that comes to a module comes to such a one, sealed or not. So it is
ended at the validation of the module only where this exceeds the limits of implementations. -/
theorem compiles_to_valid_module :
    (∀ (source : Syntax.Contract) (c : Contract) (debugNames : Bool), Accepts source →
      LoweredFrom source c →
        (generate debugNames c).isValid ∧ Denotes (generate debugNames c) c) ∧
    ∀ (p : Compiler) (request : Request) (noticed : Checkpoint → Bool),
      (∀ d, p.start request noticed = .ok (.ok d) →
        (∃ tree, d.Accepted request.mode request.source tree) ∧
          (d.withSeal (d.payload? p.scheme)).isValid) ∧
      ∀ result, (p.compile request noticed).1 = .ok result →
        (result.RefusesModule ↔ ∃ d, p.start request noticed = .ok (.ok d) ∧
          (noticed .sealed || (d.wantsSeal && p.scheme.cancels)) = false ∧
          d.module.withinLimits = false) := by
  refine ⟨?_, fun p request noticed => ⟨?_, fun result => Compiler.refusesModule_compile_iff⟩⟩
  · intro source c debugNames accepted lowered
    have typed := lowered.typed accepted
    exact ⟨Codegen.isValid_generate debugNames c typed (lowered.names_nodup accepted),
      Codegen.denotes_generate debugNames c typed⟩
  · intro d starts
    obtain ⟨tree, accepted⟩ := Compiler.start_accepted _ starts
    exact ⟨⟨tree, accepted⟩, (d.isValid_withSeal _).trans accepted.isValid⟩

/-- The optimized form of one contract, and the module of another that compiles. -/
theorem compiles_to_valid_module_sample :
    ((generate true ((analyze Check.sample).contract.optimize ⟨2, true⟩).value).isValid ∧
      Denotes (generate true ((analyze Check.sample).contract.optimize ⟨2, true⟩).value)
        ((analyze Check.sample).contract.optimize ⟨2, true⟩).value) ∧
    ∃ d, (Compiler.standard .standard).start (.plain "contract T { }" .test) (fun _ => false) =
        .ok (.ok d) ∧
      (∃ tree, d.Accepted .test "contract T { }" tree) ∧
      (d.withSeal (d.payload? Seal.Scheme.digest)).isValid := by
  obtain ⟨modules, compilations⟩ := compiles_to_valid_module
  refine ⟨modules Check.sample _ true Check.accepts_sample (.optimized ⟨2, true⟩), ?_⟩
  obtain ⟨drafts, -⟩ := compilations (.standard .standard) (.plain "contract T { }" .test)
    fun _ => false
  have comes : (((Compiler.standard .standard).start (.plain "contract T { }" .test)
      fun _ => false).toOption.bind (·.toOption)).isSome := by
    decide +kernel
  rcases starts : (Compiler.standard .standard).start (.plain "contract T { }" .test)
    fun _ => false with refusal | early | d
  · simp [starts, Except.toOption] at comes
  · simp [starts, Except.toOption] at comes
  · exact ⟨d, rfl, drafts d starts⟩

end Workbench.Pipeline
