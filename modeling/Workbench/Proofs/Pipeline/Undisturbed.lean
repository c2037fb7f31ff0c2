import Workbench.Proofs.Pipeline.Validity

/-!
# Compilations that nothing disturbs

A compilation whose cancellation is noticed nowhere comes to an end at one of four places: its
source is too large, cannot be read, has errors, or has become a module. `course` says so without
the checkpoints, and every checkpoint stands behind one of the runs that it names.
-/

namespace Workbench.Pipeline

open Source (Stage Diagnostic)
open Check (analyze)
open Security (Rule)

/-! ### Runs -/

namespace Run

variable (rules : List Rule) (mode : Mode) (settings : Config) (tree : Syntax.Contract)

/-- The run of a compilation that has reported nothing. -/
def opened : Run :=
  ⟨mode, mode.level settings, [], []⟩

/-- The run behind the semantic checks. -/
def checked : Run :=
  (opened mode settings).reportAll (analyze tree).diagnostics

/-- The run behind the security stage. -/
def scanned : Run :=
  (checked mode settings tree).reportAll
    ((Security.findings rules (analyze tree).contract).map (·.diagnostic mode.failsOnCritical))

/-- The run behind the optimizer. -/
def rewritten : Run :=
  (scanned rules mode settings tree).reportAll
    (optimized mode settings (analyze tree).contract).2

end Run

/-! ### The course -/

/-- The draft of a tree without errors. -/
def drafted (rules : List Rule) (mode : Mode) (settings : Config) (tree : Syntax.Contract) :
    Draft :=
  let contract := (optimized mode settings (analyze tree).contract).1
  ⟨Run.rewritten rules mode settings tree, contract, Codegen.generate mode.keepsNames contract,
    settings.quantumSafety⟩

/-- What becomes of a tree: a draft, unless something that was found about it is an error. -/
def verdict (rules : List Rule) (mode : Mode) (settings : Config) (tree : Syntax.Contract) :
    Step Draft :=
  if (Run.scanned rules mode settings tree).errors.isEmpty then
    .ok (drafted rules mode settings tree)
  else .error (Run.scanned rules mode settings tree).fail

/-- The stages up to the module, with no cancellation to look for. -/
def course (rules : List Rule) (settings : Config) (mode : Mode) (source : String) : Step Draft :=
  if settings.maxSourceSize < source.utf8ByteSize then
    .error ((Run.opened mode settings).report
      (oversizeDiagnostic source.utf8ByteSize settings.maxSourceSize)).fail
  else
    match Syntax.parse source with
    | .error messages => .error ((Run.opened mode settings).reportAll messages).fail
    | .ok tree => verdict rules mode settings tree

/-- The stages up to the module, each checkpoint with the run that stands in front of it. -/
theorem draft_eq (rules : List Rule) (settings : Config) (mode : Mode) (source : String)
    (noticed : Checkpoint → Bool) :
    draft rules settings mode source noticed =
      if settings.maxSourceSize < source.utf8ByteSize then
        .error ((Run.opened mode settings).report
          (oversizeDiagnostic source.utf8ByteSize settings.maxSourceSize)).fail
      else (do
        (Run.opened mode settings).pass noticed .grammar
        match Syntax.parse source with
        | .error messages => .error ((Run.opened mode settings).reportAll messages).fail
        | .ok tree =>
            (Run.opened mode settings).pass noticed .semantic
            (Run.checked mode settings tree).pass noticed .security
            if (Run.scanned rules mode settings tree).errors.isEmpty then
              (Run.scanned rules mode settings tree).pass noticed .optimization
              (Run.rewritten rules mode settings tree).pass noticed .codegen
              .ok (drafted rules mode settings tree)
            else .error (Run.scanned rules mode settings tree).fail) := by
  unfold draft
  by_cases large : settings.maxSourceSize < source.utf8ByteSize
  · simp only [if_pos large]
    rfl
  · simp only [if_neg large]
    cases Syntax.parse source with
    | error messages => rfl
    | ok tree =>
        cases clean : (Run.scanned rules mode settings tree).errors.isEmpty with
        | false =>
            have unclean := clean
            simp only [Run.scanned, Run.checked, Run.opened] at unclean
            simp only [unclean, clean]
            rfl
        | true =>
            have none := clean
            simp only [Run.scanned, Run.checked, Run.opened] at none
            simp only [none, clean]
            rfl

theorem draft_undisturbed (rules : List Rule) (settings : Config) (mode : Mode) (source : String) :
    draft rules settings mode source (fun _ => false) = course rules settings mode source := by
  rw [draft_eq]
  rfl

/-! ### Whole compilations -/

/-- The result behind a step, if its draft is finished in a given way. -/
def Step.result (finish : Draft → Result) : Step Draft → Result
  | .error result => result
  | .ok d => finish d

/-- The result of a compilation, apart from what it does to its compiler. -/
theorem Compiler.compile_fst (p : Compiler) (request : Request) (noticed : Checkpoint → Bool) :
    (p.compile request noticed).1 =
      (request.settings p.config).validate.map fun settings =>
        (draft p.rules settings request.mode request.source noticed).result fun d =>
          d.finish p.schedule (d.payload? p.scheme)
            (noticed .sealed || (d.wantsSeal && p.scheme.cancels)) := by
  unfold compile start
  cases (request.settings p.config).validate with
  | error refusal => rfl
  | ok settings =>
      simp only [Except.map]
      cases draft p.rules settings request.mode request.source noticed with
      | error early => rfl
      | ok d => rfl

/-- The result of a compilation that no one and nothing cancels. -/
theorem Compiler.compile_of_quiet {p : Compiler} (quiet : p.scheme.cancels = false)
    (request : Request) :
    (p.compile request fun _ => false).1 =
      (request.settings p.config).validate.map fun settings =>
        (course p.rules settings request.mode request.source).result fun d =>
          d.finish p.schedule (d.payload? p.scheme) false := by
  rw [compile_fst]
  simp only [draft_undisturbed, quiet, Bool.and_false, Bool.or_false]

/-- The compiler where no seal cancels anything. -/
def Compiler.undisturbed (p : Compiler) : Compiler :=
  { p with scheme := p.scheme.withoutCancel }

theorem Compiler.cancels_undisturbed (p : Compiler) : p.undisturbed.scheme.cancels = false := by
  simp [undisturbed, Seal.Scheme.withoutCancel, Seal.Scheme.cancels]

end Workbench.Pipeline
