import Workbench.Proofs.Pipeline.Exits
import Workbench.Session.Failure

/-!
# How failed compilations are classified

What clients are told about a failed compilation is read off its errors: a cancellation and a source
that is too large by their codes, all else by the stage of the first error. For whatever reason a
compilation ends, this gives the reason back, with one exception. A critical rule that bears one of
the two codes makes the failure that it causes look like what the code stands for.
-/

namespace Workbench.Session

open Pipeline
open Source (Stage)

/-- What kind of failure a reason is. -/
def kindOf? : Exit → Option FailureKind
  | .oversize => some .resource
  | .stopped _ => some .cancelled
  | .failed stage => some (.ofStage stage)
  | .succeeded => none

/-- A compilation that failed on its own has an error under a code that stands for something else,
since a critical rule bears this code. -/
def Mistaken (p : Compiler) (request : Pipeline.Request) (exit : Exit) (code : String) : Prop :=
  (∃ stage, exit = .failed stage) ∧ Lends p.rules request.mode request.source code

/-- What can be told about a compilation from its result is why it ended, unless its errors are
mistaken for something else. -/
structure Classified (p : Compiler) (request : Pipeline.Request) (exit : Exit) (result : Result) :
    Prop where
  success : result.success ↔ exit = .succeeded
  cancelled : result.wasCancelled ↔
    (∃ c, exit = .stopped c) ∨ Mistaken p request exit cancelledCode
  oversize : result.wasOversize ↔ exit = .oversize ∨ Mistaken p request exit oversizeCode
  kind : ¬ Mistaken p request exit cancelledCode → failureKind? result = kindOf? exit
  mistaken : Mistaken p request exit cancelledCode → failureKind? result = some .cancelled
  resource : failureKind? result = some .resource ↔ exit = .oversize
  /-- The stage of a failure is the first one that has reported errors. -/
  earliest : ∀ stage, exit = .failed stage →
    (∃ e ∈ result.errors, e.stage = stage) ∧ ∀ e ∈ result.errors, stage.rank ≤ e.stage.rank
  /-- Only critical rules make errors that are mistaken. -/
  rules : ∀ code, Mistaken p request exit code →
    request.mode.failsOnCritical ∧ ∃ rule ∈ p.rules, rule.gravity = .critical ∧ rule.code = code

section

variable {p : Compiler} {request : Pipeline.Request} {exit : Exit} {result : Result}

theorem wasCancelled_iff (h : exit.Explains p.rules request.mode request.source result) :
    result.wasCancelled ↔ (∃ c, exit = .stopped c) ∨ Mistaken p request exit cancelledCode := by
  have own : exit.code? = some cancelledCode ↔ ∃ c, exit = .stopped c := by
    cases exit <;> simp [Exit.code?, oversizeCode, cancelledCode]
  rw [Result.wasCancelled, h.code _ (.inr rfl), own, Mistaken]

theorem wasOversize_iff (h : exit.Explains p.rules request.mode request.source result) :
    result.wasOversize ↔ exit = .oversize ∨ Mistaken p request exit oversizeCode := by
  have own : exit.code? = some oversizeCode ↔ exit = .oversize := by
    cases exit <;> simp [Exit.code?, oversizeCode, cancelledCode]
  rw [Result.wasOversize, h.code _ (.inl rfl), own, Mistaken]

/-- A failure with no mistaken error is of the kind of its reason. -/
theorem failureKind?_eq (h : exit.Explains p.rules request.mode request.source result)
    (faithful : ¬ Mistaken p request exit cancelledCode) : failureKind? result = kindOf? exit := by
  have cancelled := wasCancelled_iff h
  have success := h.success
  unfold failureKind?
  cases exit with
  | succeeded => simp [success.2 rfl, kindOf?]
  | stopped c => simp_all [kindOf?]
  | oversize =>
      have first := (h.stage .input rfl).1
      simp_all [kindOf?, FailureKind.ofStage]
  | failed stage =>
      have first := (h.stage stage rfl).1
      simp_all [kindOf?]

theorem failureKind?_of_mistaken (h : exit.Explains p.rules request.mode request.source result)
    (mistaken : Mistaken p request exit cancelledCode) : failureKind? result = some .cancelled := by
  have cancelled := (wasCancelled_iff h).2 (.inr mistaken)
  obtain ⟨⟨stage, rfl⟩, -⟩ := mistaken
  have failed : ¬ result.success := by simp [h.success]
  simp [failureKind?, failed, cancelled]

theorem kindOf?_eq_resource_iff (late : exit ≠ .failed .input) :
    kindOf? exit = some .resource ↔ exit = .oversize := by
  cases exit with
  | failed stage => cases stage <;> simp_all [kindOf?, FailureKind.ofStage]
  | _ => simp [kindOf?]

theorem classified_of_explains (h : exit.Explains p.rules request.mode request.source result) :
    Classified p request exit result where
  success := h.success
  cancelled := wasCancelled_iff h
  oversize := wasOversize_iff h
  kind := failureKind?_eq h
  mistaken := failureKind?_of_mistaken h
  resource := by
    by_cases mistaken : Mistaken p request exit cancelledCode
    · rw [failureKind?_of_mistaken h mistaken]
      obtain ⟨⟨stage, rfl⟩, -⟩ := mistaken
      simp
    · rw [failureKind?_eq h mistaken, kindOf?_eq_resource_iff h.input]
  earliest := by
    rintro stage rfl
    obtain ⟨first, sorted⟩ := h.stage stage rfl
    obtain ⟨e, head, mine⟩ := Option.map_eq_some_iff.1 first
    exact ⟨⟨e, List.mem_of_mem_head? head, mine⟩, sorted⟩
  rules := by
    rintro code ⟨-, lends⟩
    exact ⟨lends.1, lends.exists_rule⟩

end

/-- Every compilation that is not refused ends for a reason, and is classified by it. -/
theorem failures_are_classified (p : Compiler) (request : Pipeline.Request)
    (noticed : Checkpoint → Bool) :
    (∃ refusal, (p.compile request noticed).1 = .error refusal) ∨
    ∃ exit result, p.ending request noticed = .ok (exit, result) ∧
      (p.compile request noticed).1 = .ok result ∧ Classified p request exit result := by
  have same := p.map_ending request noticed
  cases ends : p.ending request noticed with
  | error refusal => exact .inl ⟨refusal, by rw [← same, ends]; rfl⟩
  | ok ending =>
      obtain ⟨exit, result⟩ := ending
      refine .inr ⟨exit, result, rfl, by rw [← same, ends]; rfl, ?_⟩
      exact classified_of_explains (Compiler.explained ends)

/-- A release that fails on a critical finding, and that nothing cancels, is told to be cancelled if
the rule bears the code of cancellations. -/
theorem classified_as_cancelled :
    let rule : Security.Rule := ⟨cancelledCode, .calls .selfDestruct, .critical, "no"⟩
    let p : Compiler := { Compiler.standard .standard with rules := [rule] }
    let request := Pipeline.Request.plain "contract T { function f() { selfdestruct(); } }" .release
    let noticed : Checkpoint → Bool := fun _ => false
    p.scheme.cancels = false ∧
    ∃ result, p.ending request noticed = .ok (.failed .security, result) ∧
      (p.compile request noticed).1 = .ok result ∧ result.wasCancelled ∧
      failureKind? result = some .cancelled ∧ result.failedStage? = some .security := by
  intro rule p request noticed
  refine ⟨rfl, ?_⟩
  have ends : (p.ending request noticed).toOption.map (fun (exit, result) =>
      (exit, result.wasCancelled, failureKind? result, result.failedStage?)) =
      some (.failed .security, true, some .cancelled, some .security) := by
    decide +kernel
  have same := p.map_ending request noticed
  cases comes : p.ending request noticed with
  | error refusal => simp [comes, Except.toOption] at ends
  | ok ending =>
      obtain ⟨exit, result⟩ := ending
      simp only [comes, Except.toOption, Option.map_some, Option.some.injEq, Prod.mk.injEq] at ends
      obtain ⟨rfl, cancelled, kind, stage⟩ := ends
      exact ⟨result, rfl, by rw [← same, comes]; rfl, cancelled, kind, stage⟩

end Workbench.Session
