import Workbench.Proofs.Pipeline.Undisturbed

/-!
# Compilations that are cut short

A compilation that comes to a checkpoint where its cancellation is seen ends there, with what the
stages in front of it have reported. The same compilation undisturbed goes on with just that, and
what it reports later is of later stages. So the messages that a cancellation leaves are those of
the undisturbed compilation, cut at the stage of the checkpoint.
-/

namespace Workbench.Pipeline

open Source (Stage Diagnostic)
open Check (analyze)
open Security (Rule)

/-- The checkpoints in the order in which a compilation comes to them. -/
def Checkpoint.inOrder : List Checkpoint :=
  [grammar, semantic, security, optimization, codegen, sealed]

/-! ### What stages have reported -/

/-- Whether a message is of a stage in front of another one. -/
def isBefore (stage : Stage) (d : Diagnostic) : Bool :=
  d.stage.rank < stage.rank

/-- A run without what was reported from a stage on. -/
def Run.upTo (run : Run) (stage : Stage) : Run :=
  { run with
    warnings := run.warnings.filter (isBefore stage)
    errors := run.errors.filter (isBefore stage) }

/-- A result as the run that stood in front of a stage. -/
def Result.upTo (result : Result) (stage : Stage) : Run :=
  ⟨result.mode, result.level, result.warnings.filter (isBefore stage),
    result.errors.filter (isBefore stage)⟩

section

variable {run : Run} {ds : List Diagnostic} {stage own : Stage}

/-- Messages of an earlier stage are kept. -/
theorem Run.upTo_reportAll_of_lt (each : ∀ d ∈ ds, d.stage = own) (earlier : own.rank < stage.rank) :
    (run.reportAll ds).upTo stage = (run.upTo stage).reportAll ds := by
  have keep (p : Diagnostic → Bool) : (ds.filter p).filter (isBefore stage) = ds.filter p := by
    refine List.filter_eq_self.2 fun d mem => ?_
    simp [isBefore, each d (List.mem_of_mem_filter mem), earlier]
  simp [upTo, reportAll, keep]

/-- Messages of no earlier stage are dropped. -/
theorem Run.upTo_reportAll_of_le (each : ∀ d ∈ ds, d.stage = own) (later : stage.rank ≤ own.rank) :
    (run.reportAll ds).upTo stage = run.upTo stage := by
  have drop (p : Diagnostic → Bool) : (ds.filter p).filter (isBefore stage) = [] := by
    refine List.filter_eq_nil_iff.2 fun d mem => ?_
    simp [isBefore, each d (List.mem_of_mem_filter mem), later]
  simp [upTo, reportAll, drop]

theorem Run.upTo_report_of_le {d : Diagnostic} (later : stage.rank ≤ d.stage.rank) :
    (run.report d).upTo stage = run.upTo stage := by
  have dropped : isBefore stage d = false := by simp [isBefore, later]
  unfold report
  split <;> simp [upTo, dropped]

end

/-! ### What stands in front of the checkpoints -/

section

variable (rules : List Rule) (mode : Mode) (settings : Config) (tree : Syntax.Contract)

theorem stage_of_optimized (contract : Lowered.Contract) :
    ∀ d ∈ (optimized mode settings contract).2, d.stage = .optimization := by
  unfold optimized
  dsimp only
  split
  · split
    · exact List.forall_mem_singleton.2 rfl
    · exact fun _ h => nomatch h
  · exact fun _ h => nomatch h

variable {stage : Stage}

theorem Run.upTo_checked_of_le (early : stage.rank ≤ Stage.semantic.rank) :
    (checked mode settings tree).upTo stage = opened mode settings :=
  upTo_reportAll_of_le (stage_of_analyze tree) early

theorem Run.upTo_checked_of_lt (late : Stage.semantic.rank < stage.rank) :
    (checked mode settings tree).upTo stage = checked mode settings tree :=
  upTo_reportAll_of_lt (stage_of_analyze tree) late

theorem Run.upTo_scanned_of_le (early : stage.rank ≤ Stage.security.rank) :
    (scanned rules mode settings tree).upTo stage = (checked mode settings tree).upTo stage :=
  upTo_reportAll_of_le (stage_of_findings _ _) early

theorem Run.upTo_scanned_of_lt (late : Stage.security.rank < stage.rank) :
    (scanned rules mode settings tree).upTo stage = scanned rules mode settings tree := by
  unfold scanned
  rw [upTo_reportAll_of_lt (stage_of_findings _ _) late,
    upTo_checked_of_lt _ _ _ (Nat.lt_trans (by decide) late)]

theorem Run.upTo_rewritten_of_le (early : stage.rank ≤ Stage.optimization.rank) :
    (rewritten rules mode settings tree).upTo stage = (scanned rules mode settings tree).upTo stage :=
  upTo_reportAll_of_le (stage_of_optimized _ _ _) early

theorem Run.upTo_rewritten_of_lt (late : Stage.optimization.rank < stage.rank) :
    (rewritten rules mode settings tree).upTo stage = rewritten rules mode settings tree := by
  unfold rewritten
  rw [upTo_reportAll_of_lt (stage_of_optimized _ _ _) late,
    upTo_scanned_of_lt _ _ _ _ (Nat.lt_trans (by decide) late)]

/-- The optimizer reports no errors. -/
theorem Run.errors_rewritten :
    (rewritten rules mode settings tree).errors = (scanned rules mode settings tree).errors :=
  errors_reportAll _ (optimized_messages mode settings _)

end

/-- How a draft is finished counts for the stage of code only. -/
theorem Draft.upTo_finish (d : Draft) (schedule : Gas.Schedule) (payload? : Option Wasm.Bytes)
    (cancelled : Bool) (stage : Stage) :
    (d.finish schedule payload? cancelled).upTo stage = d.run.upTo stage := by
  have last (message : Diagnostic) (code : message.stage = .codegen) :
      (d.run.report message).fail.upTo stage = d.run.upTo stage :=
    Run.upTo_report_of_le (by rw [code]; cases stage <;> decide)
  unfold finish
  dsimp only
  split
  · exact last _ rfl
  · split
    · exact last _ rfl
    · cases Gas.estimate? schedule (d.withSeal payload?).encode with
      | none => exact last _ rfl
      | some gas => rfl

/-! ### Two compilations, step by step -/

/-- Whether a compilation has failed before it comes to a checkpoint. Semantic errors end it behind
the security stage, so the checkpoint of that stage is still passed. -/
def Result.EndsBefore (result : Result) (c : Checkpoint) : Prop :=
  ∃ e ∈ result.errors, e.stage.rank < c.stage.rank ∧ (e.stage = .semantic → c ≠ .security)

/-- The errors of a run that comes to a checkpoint. -/
def Run.Awaits (run : Run) (c : Checkpoint) : Prop :=
  ∀ e ∈ run.errors, e.stage = .semantic ∧ c = .security

/-- How the stages up to the module end if a cancellation is seen at given checkpoints, next to how
they end undisturbed: in the same way and in front of all these checkpoints, or at the first of
them, with what the undisturbed ones have reported by then. -/
def Shortens (seen : Checkpoint → Bool) (x full : Step Draft) : Prop :=
  (x = full ∧ ∀ c, seen c →
    Step.Gives (fun result => result.EndsBefore c) (fun _ => c = .sealed) full) ∨
  ∃ c run, Checkpoint.inOrder.find? seen = some c ∧ run.Awaits c ∧
    x = .error (run.report (cancelledDiagnostic c.stage)).fail ∧
    Step.Gives (fun result => result.upTo c.stage = run) (fun d => d.run.upTo c.stage = run) full

variable {seen : Checkpoint → Bool}

theorem Shortens.pass {run : Run} {c : Checkpoint} {rest : Unit → Step Draft} {full : Step Draft}
    (first : seen c → Checkpoint.inOrder.find? seen = some c) (awaits : run.Awaits c)
    (reported : Step.Gives (fun result => result.upTo c.stage = run)
      (fun d => d.run.upTo c.stage = run) full)
    (onward : seen c = false → Shortens seen (rest ()) full) :
    Shortens seen (run.pass seen c >>= rest) full := by
  cases here : seen c with
  | true =>
      refine .inr ⟨c, run, first here, awaits, ?_, reported⟩
      simp [Run.pass, here, bind, Except.bind]
  | false =>
      have passes : (run.pass seen c >>= rest) = rest () := by
        simp [Run.pass, here, bind, Except.bind]
      exact passes ▸ onward here

section

variable (rules : List Rule) (settings : Config) (mode : Mode) (source : String)

theorem awaits_of_clean {run : Run} (clean : run.errors = []) (c : Checkpoint) : run.Awaits c :=
  fun _ mem => absurd (clean ▸ mem) List.not_mem_nil

theorem awaits_checked (tree : Syntax.Contract) :
    (Run.checked mode settings tree).Awaits .security :=
  fun e mem => ⟨stage_of_analyze tree e (List.mem_of_mem_filter mem), rfl⟩

/-- What the security stage finds in a run that ends with it is about semantics or security. -/
theorem endsBefore_scanned {tree : Syntax.Contract} {c : Checkpoint}
    (errors : (Run.scanned rules mode settings tree).errors ≠ [])
    (late : Stage.security.rank < c.stage.rank) :
    (Run.scanned rules mode settings tree).fail.EndsBefore c := by
  obtain ⟨e, mem⟩ := List.exists_mem_of_ne_nil _ errors
  have kept : e ∈ ((Run.scanned rules mode settings tree).upTo c.stage).errors :=
    (Run.upTo_scanned_of_lt rules mode settings tree late).symm ▸ mem
  have early := (List.mem_filter.1 kept).2
  refine ⟨e, mem, by simpa [isBefore] using early, fun _ at_ => ?_⟩
  subst at_
  exact absurd late (by decide)

/-- What becomes of a tree has been reported by the semantic checks before all else. -/
theorem gives_checked (tree : Syntax.Contract) {stage : Stage}
    (early : stage.rank ≤ Stage.security.rank) :
    Step.Gives (fun result => result.upTo stage = (Run.checked mode settings tree).upTo stage)
      (fun d => d.run.upTo stage = (Run.checked mode settings tree).upTo stage)
      (verdict rules mode settings tree) := by
  have scanned := Run.upTo_scanned_of_le rules mode settings tree early
  unfold verdict
  split
  · exact (Run.upTo_rewritten_of_le rules mode settings tree (Nat.le_succ_of_le early)).trans scanned
  · exact scanned

/-- The stages behind the reader, with cancellations and undisturbed. -/
theorem tree_shortens {seen : Checkpoint → Bool} (tree : Syntax.Contract)
    (grammar : seen .grammar = false) :
    Shortens seen
      (do
        (Run.opened mode settings).pass seen .semantic
        (Run.checked mode settings tree).pass seen .security
        if (Run.scanned rules mode settings tree).errors.isEmpty then
          (Run.scanned rules mode settings tree).pass seen .optimization
          (Run.rewritten rules mode settings tree).pass seen .codegen
          .ok (drafted rules mode settings tree)
        else .error (Run.scanned rules mode settings tree).fail)
      (verdict rules mode settings tree) := by
  refine .pass (by simp +contextual [Checkpoint.inOrder, grammar]) (awaits_of_clean rfl _) ?_
    fun semantic => ?_
  · rw [← Run.upTo_checked_of_le mode settings tree (Nat.le_refl _)]
    exact gives_checked rules settings mode tree (by decide)
  refine .pass (by simp +contextual [Checkpoint.inOrder, grammar, semantic])
    (awaits_checked settings mode tree) ?_ fun security => ?_
  · have kept := Run.upTo_checked_of_lt mode settings tree
      (show Stage.semantic.rank < Stage.security.rank by decide)
    exact kept ▸ gives_checked rules settings mode tree (Nat.le_refl _)
  unfold verdict
  cases clean : (Run.scanned rules mode settings tree).errors.isEmpty with
  | false =>
      refine .inl ⟨rfl, fun c here => ?_⟩
      refine endsBefore_scanned rules settings mode (fun none => by simp [none] at clean) ?_
      cases c <;> first | decide | simp_all
  | true =>
      have none : (Run.scanned rules mode settings tree).errors = [] := List.isEmpty_iff.1 clean
      have none' := (Run.errors_rewritten rules mode settings tree).trans none
      refine .pass (by simp +contextual [Checkpoint.inOrder, grammar, semantic, security])
        (awaits_of_clean none _) ?_ fun optimization => ?_
      · exact (Run.upTo_rewritten_of_le rules mode settings tree (Nat.le_refl _)).trans
          (Run.upTo_scanned_of_lt rules mode settings tree (by decide))
      refine .pass
        (by simp +contextual [Checkpoint.inOrder, grammar, semantic, security, optimization])
        (awaits_of_clean none' _)
        (Run.upTo_rewritten_of_lt rules mode settings tree (by decide)) fun codegen => ?_
      refine .inl ⟨rfl, fun c here => ?_⟩
      cases c <;> simp_all [Step.Gives]

/-- The stages up to the module, with cancellations and undisturbed. -/
theorem draft_shortens (seen : Checkpoint → Bool) :
    Shortens seen (draft rules settings mode source seen) (course rules settings mode source) := by
  have opened : (Run.opened mode settings).Awaits .grammar := awaits_of_clean rfl _
  rw [draft_eq]
  unfold course
  by_cases large : settings.maxSourceSize < source.utf8ByteSize
  · simp only [if_pos large]
    refine .inl ⟨rfl, fun c _ => ?_⟩
    refine ⟨_, List.mem_singleton_self _, ?_, fun semantic => nomatch semantic⟩
    show Stage.input.rank < c.stage.rank
    cases c <;> decide
  simp only [if_neg large]
  cases parsed : Syntax.parse source with
  | error messages =>
      obtain ⟨some, errors⟩ := errors_of_parse parsed
      have stages := stage_of_parse parsed
      have first : ((Run.opened mode settings).reportAll messages).upTo .grammar =
          Run.opened mode settings := Run.upTo_reportAll_of_le stages (Nat.le_refl _)
      refine .pass (by simp +contextual [Checkpoint.inOrder]) opened first fun grammar => ?_
      refine .inl ⟨rfl, fun c here => ?_⟩
      obtain ⟨e, mem⟩ := List.exists_mem_of_ne_nil _ some
      refine ⟨e, List.mem_filter.2 ⟨mem, (errors e mem).2⟩, ?_, ?_⟩
      · rw [stages e mem]
        cases c <;> first | decide | simp [grammar] at here
      · intro semantic
        rw [stages e mem] at semantic
        cases semantic
  | ok tree =>
      refine .pass (by simp +contextual [Checkpoint.inOrder]) opened ?_
        (tree_shortens rules settings mode tree)
      have started := Run.upTo_checked_of_le mode settings tree
        (show Stage.grammar.rank ≤ Stage.semantic.rank by decide)
      exact started ▸ gives_checked rules settings mode tree (by decide)

end

/-! ### Whole compilations -/

/-- Whether a compilation that comes to a checkpoint sees its cancellation there. A scheme that
cancels does so in front of the last checkpoint, if a seal is asked for. -/
def Compiler.sees (p : Compiler) (request : Request) (noticed : Checkpoint → Bool)
    (c : Checkpoint) : Bool :=
  noticed c || (c == .sealed && (request.settings p.config).quantumSafety && p.scheme.cancels)

/-- The first checkpoint at which a compilation could see its cancellation. -/
def Compiler.firstSight? (p : Compiler) (request : Request) (noticed : Checkpoint → Bool) :
    Option Checkpoint :=
  Checkpoint.inOrder.find? (p.sees request noticed)

/-- A result is that of a compilation cut short at a checkpoint: it failed, without an artifact, with
the messages of the stages in front of the checkpoint and one more error that tells so. -/
structure CutShort (full : Result) (c : Checkpoint) (result : Result) : Prop where
  mode : result.mode = full.mode
  level : result.level = full.level
  failed : result.success = false
  bytecode : result.bytecode = []
  interface : result.interface = []
  gas : result.gas = 0
  warnings : result.warnings = full.warnings.filter (isBefore c.stage)
  errors : result.errors = full.errors.filter (isBefore c.stage) ++ [cancelledDiagnostic c.stage]

theorem CutShort.of_upTo {full : Result} {run : Run} {c : Checkpoint}
    (reported : full.upTo c.stage = run) :
    CutShort full c (run.report (cancelledDiagnostic c.stage)).fail := by
  subst reported
  exact ⟨rfl, rfl, rfl, rfl, rfl, rfl, rfl, rfl⟩

/-- A compilation whose run comes to a checkpoint has not failed in front of it. -/
theorem Result.not_endsBefore {full : Result} {run : Run} {c : Checkpoint}
    (reported : full.upTo c.stage = run) (awaits : run.Awaits c) : ¬ full.EndsBefore c := by
  rintro ⟨e, mem, earlier, kept⟩
  have mem : e ∈ run.errors := reported ▸ List.mem_filter.2 ⟨mem, by simpa [isBefore] using earlier⟩
  obtain ⟨semantic, at_⟩ := awaits e mem
  exact kept semantic at_

/-- The messages of the undisturbed compilation, where a step ends with a given finish. -/
theorem upTo_result {full : Step Draft} {stage : Stage} {run : Run} {finish : Draft → Result}
    (reported : Step.Gives (fun result => result.upTo stage = run)
      (fun d => d.run.upTo stage = run) full)
    (keeps : ∀ d, (finish d).upTo stage = d.run.upTo stage) :
    (full.result finish).upTo stage = run := by
  cases full with
  | error early => exact reported
  | ok d => exact (keeps d).trans reported

/-- A step that is not cut has the draft of the undisturbed one. -/
theorem Shortens.ok {seen : Checkpoint → Bool} {x full : Step Draft} {d : Draft}
    (shortens : Shortens seen x full) (comes : x = .ok d) : full = .ok d := by
  rcases shortens with ⟨same, -⟩ | ⟨c, run, -, -, cut, -⟩
  · exact same ▸ comes
  · rw [cut] at comes
    cases comes

theorem Step.result_congr {x : Step Draft} {f g : Draft → Result}
    (same : ∀ d, x = .ok d → f d = g d) : x.result f = x.result g := by
  cases x with
  | error early => rfl
  | ok d => exact same d rfl

/-- The same stages with cancellations and undisturbed, with the finish of a draft: both end alike,
in front of every checkpoint where a cancellation could be seen, or one is cut at the first of them.
-/
theorem Shortens.result {seen : Checkpoint → Bool} {x full : Step Draft} {p : Compiler}
    (shortens : Shortens seen x full)
    (drafted : ∀ d, full = .ok d → d.run.upTo .codegen = d.run ∧ d.run.errors = []) :
    let finish (cancelled : Bool) (d : Draft) := d.finish p.schedule (d.payload? p.scheme) cancelled
    let result := x.result (finish (seen .sealed))
    let undisturbed := full.result (finish false)
    (result = undisturbed ∧
      ∀ c, Checkpoint.inOrder.find? seen = some c → undisturbed.EndsBefore c) ∨
    ∃ c, Checkpoint.inOrder.find? seen = some c ∧ ¬ undisturbed.EndsBefore c ∧
      CutShort undisturbed c result := by
  intro finish result undisturbed
  have keeps (stage : Stage) (d : Draft) : (finish false d).upTo stage = d.run.upTo stage :=
    d.upTo_finish _ _ _ stage
  rcases shortens with ⟨rfl, ends⟩ | ⟨c, run, first, awaits, cut, reported⟩
  · cases x with
    | error early => exact .inl ⟨rfl, fun c first => ends c (List.find?_some first)⟩
    | ok d =>
        have passed (c : Checkpoint) (early : c ≠ .sealed) : seen c = false := by
          by_contra here
          exact early (ends c (by simpa using here))
        have grammar := passed .grammar (by decide)
        have semantic := passed .semantic (by decide)
        have security := passed .security (by decide)
        have optimization := passed .optimization (by decide)
        have codegen := passed .codegen (by decide)
        cases last : seen .sealed with
        | false =>
            refine .inl ⟨by simp only [result, undisturbed, last], fun c first => ?_⟩
            have here := List.find?_some first
            cases c <;> simp_all
        | true =>
            obtain ⟨whole, clean⟩ := drafted d rfl
            have reported : undisturbed.upTo .codegen = d.run := (keeps .codegen d).trans whole
            refine .inr ⟨.sealed, by simp [Checkpoint.inOrder, *], ?_, ?_⟩
            · exact Result.not_endsBefore (c := .sealed) reported (awaits_of_clean clean _)
            · have cut : result = (d.run.report (cancelledDiagnostic .codegen)).fail := by
                simp [result, finish, last, Step.result, Draft.finish]
              exact cut ▸ CutShort.of_upTo (c := .sealed) reported
  · have reported := upTo_result reported (keeps c.stage)
    refine .inr ⟨c, first, Result.not_endsBefore reported awaits, ?_⟩
    have same : result = (run.report (cancelledDiagnostic c.stage)).fail := by
      simp only [result, cut, Step.result]
    exact same ▸ CutShort.of_upTo reported

/-- A draft has no errors, all of its messages are older than the code, and it wants a seal as the
settings say. -/
theorem course_drafted {rules : List Rule} {settings : Config} {mode : Mode} {source : String}
    {d : Draft} (comes : course rules settings mode source = .ok d) :
    d.run.upTo .codegen = d.run ∧ d.run.errors = [] ∧ d.wantsSeal = settings.quantumSafety := by
  unfold course verdict at comes
  split at comes
  · cases comes
  · split at comes
    · cases comes
    · next tree _ =>
      split at comes
      · next clean =>
        cases comes
        refine ⟨Run.upTo_rewritten_of_lt rules mode settings tree (by decide), ?_, rfl⟩
        exact (Run.errors_rewritten rules mode settings tree).trans (List.isEmpty_iff.1 clean)
      · cases comes

/-- The result of a compilation by what it sees, seals included. -/
theorem Compiler.compile_of_sees (p : Compiler) (request : Request) (noticed : Checkpoint → Bool) :
    (p.compile request noticed).1 =
      (request.settings p.config).validate.map fun settings =>
        (draft p.rules settings request.mode request.source (p.sees request noticed)).result
          fun d => d.finish p.schedule (d.payload? p.scheme) (p.sees request noticed .sealed) := by
  rw [compile_fst]
  cases valid : (request.settings p.config).validate with
  | error refusal => rfl
  | ok settings =>
      obtain ⟨-, rfl⟩ := Config.validate_eq_ok_iff.1 valid
      have same (c : Checkpoint) (early : c ≠ .sealed) : noticed c = p.sees request noticed c := by
        simp [sees, early]
      have seen := draft_congr p.rules (request.settings p.config) request.mode request.source same
      have shortens := draft_shortens p.rules (request.settings p.config) request.mode
        request.source (p.sees request noticed)
      simp only [Except.map, seen, Except.ok.injEq]
      -- A draft is that of the undisturbed compilation, so it wants a seal as the settings say.
      refine Step.result_congr fun d comes => ?_
      rw [(course_drafted (shortens.ok comes)).2.2]
      simp [sees]

/-- Cancellation only cuts a compilation short. Wherever its cancellation is noticed, a compilation
has the result of the same compilation undisturbed, or is cut at the first checkpoint that sees the
cancellation. It is cut exactly if the undisturbed one comes to that checkpoint. -/
theorem cancellation_cuts_short (p : Compiler) (request : Request)
    (noticed : Checkpoint → Bool) :
    (∃ refusal, (p.compile request noticed).1 = .error refusal ∧
      (p.undisturbed.compile request fun _ => false).1 = .error refusal) ∨
    ∃ result full, (p.compile request noticed).1 = .ok result ∧
      (p.undisturbed.compile request fun _ => false).1 = .ok full ∧
      ((result = full ∧
          ∀ c, p.firstSight? request noticed = some c → full.EndsBefore c) ∨
        ∃ c, p.firstSight? request noticed = some c ∧ ¬ full.EndsBefore c ∧
          CutShort full c result) := by
  rw [p.compile_of_sees, Compiler.compile_of_quiet p.cancels_undisturbed]
  have same : request.settings p.undisturbed.config = request.settings p.config := rfl
  rw [same]
  cases (request.settings p.config).validate with
  | error refusal => exact .inl ⟨refusal, rfl, rfl⟩
  | ok settings =>
      refine .inr ⟨_, _, rfl, rfl, ?_⟩
      have shortens := draft_shortens p.rules settings request.mode request.source
        (p.sees request noticed)
      refine shortens.result fun d comes => ?_
      obtain ⟨whole, clean, -⟩ := course_drafted comes
      exact ⟨whole, clean⟩

end Workbench.Pipeline
