import Workbench.Proofs.Pipeline.Consistency
import Workbench.Proofs.Security.Findings
import Workbench.Proofs.Syntax.Placement

/-!
# Why compilations end

A result does not say why its compilation ended. The ends of a compilation are gone through once
more, each with its reason, which is that of the branch taken and has nothing to do with messages.
What can be told from the codes of the errors is then a question about the codes that the stages
use. Two of them are reserved, for sources that are too large and for cancellations. No stage uses
these for anything else but the security stage, which takes its codes from the rules.
-/

namespace Workbench.Pipeline

open Source (Stage Diagnostic)
open Check (analyze)
open Security (Rule)

/-! ### Ends with their reasons -/

/-- Why a compilation ends. -/
inductive Exit where
  /-- The source is too large. -/
  | oversize
  /-- A cancellation is seen at a checkpoint. -/
  | stopped (checkpoint : Checkpoint)
  /-- Some stages report errors; the first of them. -/
  | failed (stage : Stage)
  | succeeded
  deriving DecidableEq, Repr

/-- The rest of a compilation, or its end with the reason. -/
abbrev Traced (α : Type) := Except (Exit × Result) α

/-- Goes on with a run unless its cancellation is noticed. -/
def Run.watch (run : Run) (noticed : Checkpoint → Bool) (checkpoint : Checkpoint) : Traced Unit :=
  if noticed checkpoint then
    .error (.stopped checkpoint, (run.report (cancelledDiagnostic checkpoint.stage)).fail)
  else .ok ()

/-- The stages up to the module, each end with its reason. -/
def traced (rules : List Rule) (settings : Config) (mode : Mode) (source : String)
    (noticed : Checkpoint → Bool) : Traced Draft :=
  if settings.maxSourceSize < source.utf8ByteSize then
    .error (.oversize, ((Run.opened mode settings).report
      (oversizeDiagnostic source.utf8ByteSize settings.maxSourceSize)).fail)
  else do
    (Run.opened mode settings).watch noticed .grammar
    match Syntax.parse source with
    | .error messages =>
        .error (.failed .grammar, ((Run.opened mode settings).reportAll messages).fail)
    | .ok tree =>
        (Run.opened mode settings).watch noticed .semantic
        (Run.checked mode settings tree).watch noticed .security
        if (Run.scanned rules mode settings tree).errors.isEmpty then
          (Run.scanned rules mode settings tree).watch noticed .optimization
          (Run.rewritten rules mode settings tree).watch noticed .codegen
          .ok (drafted rules mode settings tree)
        else
          let first :=
            if (Run.checked mode settings tree).errors.isEmpty then Stage.security else .semantic
          .error (.failed first, (Run.scanned rules mode settings tree).fail)

/-- The end of a draft with its reason. -/
def Draft.ending (d : Draft) (schedule : Gas.Schedule) (payload? : Option Wasm.Bytes)
    (cancelled : Bool) : Exit × Result :=
  let result := d.finish schedule payload? cancelled
  if cancelled then (.stopped .sealed, result)
  else
    match d.assay schedule payload? with
    | .error _ => (.failed .codegen, result)
    | .ok _ => (.succeeded, result)

/-- The end of a compilation with its reason, unless it is refused for impossible settings. -/
def Compiler.ending (p : Compiler) (request : Request) (noticed : Checkpoint → Bool) :
    Except Refusal (Exit × Result) :=
  (request.settings p.config).validate.map fun settings =>
    match traced p.rules settings request.mode request.source noticed with
    | .error ending => ending
    | .ok d =>
        d.ending p.schedule (d.payload? p.scheme)
          (noticed .sealed || (d.wantsSeal && p.scheme.cancels))

theorem Run.mapError_watch_bind (run : Run) (noticed : Checkpoint → Bool) (c : Checkpoint)
    {α : Type} (rest : Unit → Traced α) :
    (run.watch noticed c >>= rest).mapError Prod.snd =
      run.pass noticed c >>= fun _ => (rest ()).mapError Prod.snd := by
  unfold watch pass
  split <;> rfl

/-- Without the reasons the stages are those of a compilation. -/
theorem mapError_traced (rules : List Rule) (settings : Config) (mode : Mode) (source : String)
    (noticed : Checkpoint → Bool) :
    (traced rules settings mode source noticed).mapError Prod.snd =
      draft rules settings mode source noticed := by
  rw [draft_eq]
  unfold traced
  split
  · rfl
  rw [Run.mapError_watch_bind]
  congr 1
  funext
  cases Syntax.parse source with
  | error messages => rfl
  | ok tree =>
      dsimp only
      rw [Run.mapError_watch_bind]
      congr 1
      funext
      rw [Run.mapError_watch_bind]
      congr 1
      funext
      split
      · rw [Run.mapError_watch_bind]
        congr 1
        funext
        rw [Run.mapError_watch_bind]
        rfl
      · rfl

theorem Draft.snd_ending (d : Draft) (schedule : Gas.Schedule) (payload? : Option Wasm.Bytes)
    (cancelled : Bool) :
    (d.ending schedule payload? cancelled).2 = d.finish schedule payload? cancelled := by
  unfold ending
  dsimp only
  split
  · rfl
  · split <;> rfl

/-- The ends of compilations are those that they have. -/
theorem Compiler.map_ending (p : Compiler) (request : Request) (noticed : Checkpoint → Bool) :
    (p.ending request noticed).map Prod.snd = (p.compile request noticed).1 := by
  rw [compile_fst]
  unfold ending
  cases (request.settings p.config).validate with
  | error refusal => rfl
  | ok settings =>
      simp only [Except.map, ← mapError_traced]
      cases traced p.rules settings request.mode request.source noticed with
      | error ending => rfl
      | ok d => exact congrArg Except.ok (d.snd_ending _ _ _)

/-! ### Codes -/

/-- The codes that stand for a source that is too large and for a cancellation. -/
def Reserved (code : String) : Prop :=
  code = oversizeCode ∨ code = cancelledCode

/-- Messages that no one could take for one about size or cancellation. -/
def Plain (messages : List Diagnostic) : Prop :=
  ∀ d ∈ messages, ¬ Reserved d.code

theorem Plain.filter {messages : List Diagnostic} (h : Plain messages) (p : Diagnostic → Bool) :
    Plain (messages.filter p) :=
  fun d known => h d (List.mem_of_mem_filter known)

theorem plain_of_parse {source : String} {messages : List Diagnostic}
    (h : Syntax.parse source = .error messages) : Plain messages := by
  unfold Syntax.parse at h
  dsimp only at h
  split at h
  · split at h
    · cases h
    · next e _ =>
      cases h
      refine List.forall_mem_singleton.2 ?_
      show ¬ Reserved e.problem.code
      cases e.problem <;>
        simp [Reserved, oversizeCode, cancelledCode, Syntax.GrammarProblem.code]
  · cases h
    intro d known
    rw [Syntax.lex_eq] at known
    obtain ⟨p, -, refused⟩ := List.mem_flatMap.1 known
    have lexical (problem : Syntax.LexicalProblem) (span : Source.Span) :
        ¬ Reserved (problem.diagnostic span).code := by
      cases problem <;> simp [Reserved, oversizeCode, cancelledCode,
        Syntax.LexicalProblem.diagnostic, Syntax.LexicalProblem.code]
    rcases Syntax.Placed.mem_diagnostics_iff.1 refused with ⟨word, -, rfl⟩ | ⟨c, -, stray⟩
    · exact lexical _ _
    · obtain ⟨i, -, rfl⟩ := Syntax.Placed.mem_strayDiagnostics_iff.1 stray
      exact lexical _ _

theorem plain_of_analyze (tree : Syntax.Contract) : Plain (analyze tree).diagnostics := by
  intro d known
  obtain ⟨located, -, rfl⟩ := List.mem_map.1 known
  show ¬ Reserved located.problem.code
  cases located.problem <;> simp [Reserved, oversizeCode, cancelledCode, Check.Problem.code]

/-- What a module can fail on is an error of the stage of code. -/
theorem error_of_assay {d : Draft} {schedule : Gas.Schedule} {payload? : Option Wasm.Bytes}
    {message : Diagnostic} (h : d.assay schedule payload? = .error message) :
    message.isError ∧ message.stage = .codegen ∧ ¬ Reserved message.code := by
  have plain : message = invalidModuleDiagnostic d.contract.span ∨
      message = noEstimateDiagnostic d.contract.span := by
    unfold Draft.assay at h
    grind
  rcases plain with rfl | rfl <;>
    exact ⟨rfl, rfl, by simp [Reserved, oversizeCode, cancelledCode, invalidModuleDiagnostic,
      noEstimateDiagnostic]⟩

/-- What the security stage reports as errors. -/
def criticalErrors (rules : List Rule) (mode : Mode) (tree : Syntax.Contract) : List Diagnostic :=
  ((Security.findings rules (analyze tree).contract).map
    (·.diagnostic mode.failsOnCritical)).filter Diagnostic.isError

theorem Run.errors_scanned (rules : List Rule) (mode : Mode) (settings : Config)
    (tree : Syntax.Contract) :
    (scanned rules mode settings tree).errors =
      (checked mode settings tree).errors ++ criticalErrors rules mode tree :=
  rfl

/-- A critical finding about a source is an error, under a code that its rule brings. -/
def Lends (rules : List Rule) (mode : Mode) (source code : String) : Prop :=
  mode.failsOnCritical ∧ ∃ tree, Syntax.parse source = .ok tree ∧
    ∃ finding ∈ Security.findings rules (analyze tree).contract,
      finding.isCritical ∧ finding.code = code

section

variable {rules : List Rule} {mode : Mode} {source code : String}

/-- Only a critical rule lends its code. -/
theorem Lends.exists_rule (h : Lends rules mode source code) :
    ∃ rule ∈ rules, rule.gravity = .critical ∧ rule.code = code := by
  obtain ⟨-, tree, -, finding, found, critical, rfl⟩ := h
  obtain ⟨f, -, rule, known, span, -, rfl⟩ := Security.mem_findings_iff.1 found
  exact ⟨rule, known, by simpa [Security.Finding.isCritical, Security.Rule.finding] using critical,
    rfl⟩

theorem isError_diagnostic_iff {finding : Security.Finding} {failOnCritical : Bool} :
    (finding.diagnostic failOnCritical).isError ↔ failOnCritical ∧ finding.isCritical := by
  cases gravity : finding.gravity <;> cases failOnCritical <;>
    simp [Security.Finding.diagnostic, Security.Finding.isCritical, Diagnostic.isError, gravity]

/-- The errors of the security stage lend their codes. -/
theorem lends_iff {tree : Syntax.Contract} (parsed : Syntax.parse source = .ok tree) :
    Lends rules mode source code ↔ ∃ e ∈ criticalErrors rules mode tree, e.code = code := by
  constructor
  · rintro ⟨fails, tree', parsed', finding, found, critical, rfl⟩
    obtain rfl : tree = tree' := by simpa [parsed] using parsed'
    exact ⟨_, List.mem_filter.2 ⟨List.mem_map_of_mem found,
      isError_diagnostic_iff.2 ⟨fails, critical⟩⟩, rfl⟩
  · rintro ⟨e, known, rfl⟩
    obtain ⟨known, error⟩ := List.mem_filter.1 known
    obtain ⟨finding, found, rfl⟩ := List.mem_map.1 known
    obtain ⟨fails, critical⟩ := isError_diagnostic_iff.1 error
    exact ⟨fails, tree, parsed, finding, found, critical, rfl⟩

end

/-! ### What a reason explains -/

namespace Exit

/-- The code that is reserved for a reason. -/
def code? : Exit → Option String
  | oversize => some oversizeCode
  | stopped _ => some cancelledCode
  | failed _ | succeeded => none

/-- The first stage that reports errors, where the reason says so. A stopped compilation can have
errors of its own. -/
def stage? : Exit → Option Stage
  | oversize => some .input
  | failed stage => some stage
  | stopped _ | succeeded => none

/-- The errors of a result are those of a compilation that ended for a reason. -/
structure Explains (rules : List Rule) (mode : Mode) (source : String) (exit : Exit)
    (result : Result) : Prop where
  success : result.success ↔ exit = succeeded
  code : ∀ code, Reserved code → (result.hasError code ↔
    exit.code? = some code ∨ (∃ stage, exit = failed stage) ∧ Lends rules mode source code)
  stage : ∀ stage, exit.stage? = some stage →
    result.failedStage? = some stage ∧ ∀ e ∈ result.errors, stage.rank ≤ e.stage.rank
  /-- Before all stages the only error is about the size. -/
  input : exit ≠ failed .input

variable {rules : List Rule} {mode : Mode} {source : String} {run : Run}

/-- The end of a run that is cancelled. -/
theorem explains_stopped (plain : Plain run.errors) (c : Checkpoint) :
    Explains rules mode source (stopped c) (run.report (cancelledDiagnostic c.stage)).fail where
  success := by simp [Result.success, Run.fail]
  code := by
    intro code reserved
    have none : run.errors.any (·.code == code) = false := by
      rw [List.any_eq_false]
      intro e known same
      exact plain e known (by simpa [beq_iff_eq.1 same] using reserved)
    simp [Result.hasError, Run.report, Run.fail, Diagnostic.isError, cancelledDiagnostic, none,
      code?]
  stage := by simp [stage?]
  input := by simp

/-- The end of a run that has not begun since the source is too large. -/
theorem explains_oversize (settings : Config) (size limit : Nat) :
    Explains rules mode source oversize
      ((Run.opened mode settings).report (oversizeDiagnostic size limit)).fail where
  success := by simp [Result.success, Run.fail]
  code := by
    intro code _
    simp [Result.hasError, Run.report, Run.fail, Run.opened, Diagnostic.isError,
      oversizeDiagnostic, code?]
  stage := by
    rintro _ ⟨⟩
    simp [Result.failedStage?, Run.report, Run.fail, Run.opened, Diagnostic.isError,
      oversizeDiagnostic]
  input := by simp

/-- The end of a run with errors of its own. -/
theorem explains_failed {stage : Stage} (late : stage ≠ .input)
    (codes : ∀ code, Reserved code →
      ((∃ e ∈ run.errors, e.code = code) ↔ Lends rules mode source code))
    (first : run.errors.head?.map (·.stage) = some stage)
    (sorted : ∀ e ∈ run.errors, stage.rank ≤ e.stage.rank) :
    Explains rules mode source (failed stage) run.fail where
  success := by simp [Result.success, Run.fail]
  code := by
    intro code reserved
    simp [Result.hasError, Run.fail, code?, ← codes code reserved]
  stage := by
    rintro _ ⟨⟩
    exact ⟨first, sorted⟩
  input := by simpa using late

/-- The end of a run whose errors are all of one stage and have no reserved codes. -/
theorem explains_failed_of_plain {stage : Stage} (late : stage ≠ .input)
    (quiet : ∀ code, ¬ Lends rules mode source code) (plain : Plain run.errors)
    (some : run.errors ≠ []) (each : ∀ e ∈ run.errors, e.stage = stage) :
    Explains rules mode source (failed stage) run.fail := by
  refine explains_failed late (fun code reserved => ?_) ?_ fun e known => (by rw [each e known])
  · refine iff_of_false ?_ (quiet code)
    rintro ⟨e, known, rfl⟩
    exact plain e known reserved
  · cases errors : run.errors with
    | nil => exact absurd errors some
    | cons e es => simpa using each e (by simp [errors])

end Exit

/-! ### Whole compilations -/

namespace Traced

variable {α : Type}

/-- What is known of the end of a step and of its reason, and of what the step goes on with. -/
def Gives (Early : Exit → Result → Prop) (P : α → Prop) : Traced α → Prop
  | .error (exit, result) => Early exit result
  | .ok a => P a

theorem gives_watch {Early : Exit → Result → Prop} {P : α → Prop} {run : Run}
    {noticed : Checkpoint → Bool} {c : Checkpoint} {rest : Unit → Traced α}
    (early : Early (.stopped c) (run.report (cancelledDiagnostic c.stage)).fail)
    (onward : Gives Early P (rest ())) : Gives Early P (run.watch noticed c >>= rest) := by
  unfold Run.watch
  split
  · exact early
  · exact onward

end Traced

section

variable (rules : List Rule) (settings : Config) (mode : Mode) (source : String)

/-- A draft has met no error, and no critical finding that would have been one. -/
structure Draft.Clean (d : Draft) : Prop where
  errors : d.run.errors = []
  quiet : ∀ code, ¬ Lends rules mode source code

/-- A text without a tree has the errors of the grammar stage only. -/
theorem explains_unparsed {messages : List Diagnostic}
    (parsed : Syntax.parse source = .error messages) :
    (Exit.failed .grammar).Explains rules mode source
      ((Run.opened mode settings).reportAll messages).fail := by
  obtain ⟨some, errors⟩ := errors_of_parse parsed
  have all : messages.filter Diagnostic.isError = messages :=
    List.filter_eq_self.2 fun d known => (errors d known).2
  have kept : ((Run.opened mode settings).reportAll messages).errors = messages := all
  refine Exit.explains_failed_of_plain (by decide) ?_ ?_ ?_ ?_
  · rintro code ⟨-, tree, other, -⟩
    rw [parsed] at other
    cases other
  · rw [kept]
    exact plain_of_parse parsed
  · rwa [kept]
  · rw [kept]
    exact stage_of_parse parsed

/-- A tree that fails has errors of the semantic checks or else of the security stage. -/
theorem explains_scanned {tree : Syntax.Contract} (parsed : Syntax.parse source = .ok tree)
    (unclean : (Run.scanned rules mode settings tree).errors ≠ []) :
    (Exit.failed (if (Run.checked mode settings tree).errors.isEmpty then .security
      else .semantic)).Explains rules mode source (Run.scanned rules mode settings tree).fail := by
  have plain : Plain (Run.checked mode settings tree).errors :=
    (plain_of_analyze tree).filter Diagnostic.isError
  have semantic : ∀ e ∈ (Run.checked mode settings tree).errors, e.stage = .semantic :=
    fun e known => stage_of_analyze tree e (List.mem_of_mem_filter known)
  have security : ∀ e ∈ criticalErrors rules mode tree, e.stage = .security :=
    fun e known => stage_of_findings _ _ e (List.mem_of_mem_filter known)
  have codes (code : String) (reserved : Reserved code) :
      (∃ e ∈ (Run.scanned rules mode settings tree).errors, e.code = code) ↔
        Lends rules mode source code := by
    rw [lends_iff parsed, Run.errors_scanned]
    constructor
    · rintro ⟨e, known, rfl⟩
      rcases List.mem_append.1 known with early | late
      · exact absurd reserved (plain e early)
      · exact ⟨e, late, rfl⟩
    · rintro ⟨e, known, rfl⟩
      exact ⟨e, List.mem_append_right _ known, rfl⟩
  have whole := Run.errors_scanned rules mode settings tree
  cases early : (Run.checked mode settings tree).errors with
  | nil =>
      rw [early, List.nil_append] at whole
      show (Exit.failed .security).Explains rules mode source _
      refine Exit.explains_failed (by decide) codes ?_ fun e known => ?_
      · obtain ⟨e, es, errors⟩ := List.exists_cons_of_ne_nil unclean
        have known : e ∈ criticalErrors rules mode tree := by simp [← whole, errors]
        simp [errors, security e known]
      · rw [security e (whole ▸ known)]
  | cons first others =>
      rw [early] at whole semantic
      show (Exit.failed .semantic).Explains rules mode source _
      refine Exit.explains_failed (by decide) codes ?_ fun e known => ?_
      · simp [whole, semantic]
      · rcases List.mem_append.1 (whole ▸ known) with mine | late
        · rw [semantic e mine]
        · rw [security e late]
          decide

/-- The stages up to the module end for the reasons that they are said to have. -/
theorem gives_explained (noticed : Checkpoint → Bool) :
    Traced.Gives (Exit.Explains rules mode source) (Draft.Clean rules mode source)
      (traced rules settings mode source noticed) := by
  have opened (c : Checkpoint) : (Exit.stopped c).Explains rules mode source
      ((Run.opened mode settings).report (cancelledDiagnostic c.stage)).fail :=
    Exit.explains_stopped (by simp [Plain, Run.opened]) c
  unfold traced
  split
  case isTrue large =>
    exact Exit.explains_oversize settings _ _
  case isFalse =>
  refine Traced.gives_watch (opened .grammar) ?_
  split
  case h_1 messages parsed => exact explains_unparsed rules settings mode source parsed
  case h_2 tree parsed =>
  refine Traced.gives_watch (opened .semantic) ?_
  have checked : Plain (Run.checked mode settings tree).errors :=
    (plain_of_analyze tree).filter Diagnostic.isError
  refine Traced.gives_watch (Exit.explains_stopped checked .security) ?_
  split
  case isFalse unclean =>
    exact explains_scanned rules settings mode source parsed fun none => unclean (by simp [none])
  case isTrue clean =>
  have none : (Run.scanned rules mode settings tree).errors = [] := List.isEmpty_iff.1 clean
  have none' := (Run.errors_rewritten rules mode settings tree).trans none
  refine Traced.gives_watch (Exit.explains_stopped (by simp [none, Plain]) .optimization) ?_
  refine Traced.gives_watch (Exit.explains_stopped (by simp [none', Plain]) .codegen) ?_
  refine ⟨none', fun code lends => ?_⟩
  obtain ⟨e, known, -⟩ := (lends_iff parsed).1 lends
  have known : e ∈ (Run.scanned rules mode settings tree).errors := List.mem_append_right _ known
  rw [none] at known
  cases known

/-- A draft ends for the reason that it is said to have. -/
theorem Draft.Clean.explained {d : Draft} (h : d.Clean rules mode source)
    (schedule : Gas.Schedule) (payload? : Option Wasm.Bytes) (cancelled : Bool) :
    (d.ending schedule payload? cancelled).1.Explains rules mode source
      (d.ending schedule payload? cancelled).2 := by
  unfold Draft.ending
  cases cancelled with
  | true =>
      have plain : Plain d.run.errors := by simp [Plain, h.errors]
      exact Exit.explains_stopped plain .sealed
  | false =>
      simp only [Draft.finish_eq]
      cases assayed : d.assay schedule payload? with
      | error message =>
          obtain ⟨error, stage, plain⟩ := error_of_assay assayed
          have alone : (d.run.report message).errors = [message] := by
            simp [Run.report, error, h.errors]
          have plain : Plain (d.run.report message).errors := by simpa [Plain, alone] using plain
          exact Exit.explains_failed_of_plain (by decide) h.quiet plain (by simp [alone])
            (by simpa [alone] using stage)
      | ok gas =>
          exact {
            success := by simp [Result.success, Run.succeed]
            code := by simp [Result.hasError, Run.succeed, h.errors, Exit.code?]
            stage := by simp [Exit.stage?]
            input := by simp }

end

/-- Compilations end for the reasons that they are said to have. -/
theorem Compiler.explained {p : Compiler} {request : Request} {noticed : Checkpoint → Bool}
    {exit : Exit} {result : Result} (h : p.ending request noticed = .ok (exit, result)) :
    exit.Explains p.rules request.mode request.source result := by
  unfold ending at h
  cases valid : (request.settings p.config).validate with
  | error refusal =>
      rw [valid] at h
      cases h
  | ok settings =>
      rw [valid] at h
      have gives := gives_explained p.rules settings request.mode request.source noticed
      cases comes : traced p.rules settings request.mode request.source noticed with
      | error early =>
          rw [comes] at gives
          simp only [Except.map, comes] at h
          cases h
          exact gives
      | ok d =>
          rw [comes] at gives
          simp only [Except.map, comes, Except.ok.injEq] at h
          have explained := gives.explained p.rules request.mode request.source p.schedule
            (d.payload? p.scheme) (noticed .sealed || (d.wantsSeal && p.scheme.cancels))
          rwa [h] at explained

end Workbench.Pipeline
