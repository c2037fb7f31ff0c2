import Workbench.Pipeline.Compile

/-!
# Cancelled compilations

A compilation that notices its cancellation at any checkpoint has no artifact. So one that succeeds
has passed all of them unnoticed.
-/

namespace Workbench.Pipeline

open Security (Rule)

variable {α β : Type} {noticed noticed' : Checkpoint → Bool}

/-! ### Steps of a compilation -/

/-- A step that ends the compilation ends it with a result as `Early` asks for, and otherwise gives
what `P` asks for. -/
def Step.Gives (Early : Result → Prop) (P : α → Prop) (x : Step α) : Prop :=
  match x with
  | .error result => Early result
  | .ok a => P a

variable {Early : Result → Prop}

theorem Step.gives_bind {x : Step α} {f : α → Step β} {P : β → Prop}
    (h : Step.Gives Early (fun a => Step.Gives Early P (f a)) x) :
    Step.Gives Early P (x >>= f) := by
  cases x with
  | error result => exact h
  | ok a => exact h

/-- Whatever comes after an early end does not count. -/
theorem Step.gives_throw_bind {run : Run} {f : α → Step β} {P : β → Prop} (early : Early run.fail) :
    Step.Gives Early P ((throw run.fail : Step α) >>= f) :=
  early

theorem Run.gives_pass (run : Run) {c : Checkpoint} {P : Unit → Prop}
    (early : Early (run.report (cancelledDiagnostic c.stage)).fail)
    (h : noticed c = false → P ()) : Step.Gives Early P (run.pass noticed c) := by
  unfold Run.pass
  split
  · exact early
  · next unnoticed => exact h (by simpa using unnoticed)

/-! ### Whole compilations -/

variable {p : Compiler} {request : Request} {result : Result}

theorem Compiler.start_eq_ok_iff {step : Step Draft} :
    p.start request noticed = .ok step ↔
      ∃ settings, (request.settings p.config).validate = .ok settings ∧
        draft p.rules settings request.mode request.source noticed = step := by
  unfold Compiler.start
  cases (request.settings p.config).validate with
  | error refusal => simp [Except.map]
  | ok settings => simp [Except.map]

/-- A compilation has the result of an early end or of the draft that it comes to. -/
theorem Compiler.compile_eq_ok_iff : (p.compile request noticed).1 = .ok result ↔
    p.start request noticed = .ok (.error result) ∨
      ∃ d, p.start request noticed = .ok (.ok d) ∧
        d.finish p.schedule (d.payload? p.scheme)
          (noticed .sealed || (d.wantsSeal && p.scheme.cancels)) = result := by
  unfold Compiler.compile
  cases p.start request noticed with
  | error refusal => simp
  | ok step => cases step <;> simp

/-- The stages up to the module do not look at the last checkpoint. -/
theorem draft_congr (rules : List Rule) (settings : Config) (mode : Mode) (source : String)
    (same : ∀ c ≠ Checkpoint.sealed, noticed c = noticed' c) :
    draft rules settings mode source noticed = draft rules settings mode source noticed' := by
  have pass (run : Run) (c : Checkpoint) (early : c ≠ .sealed) :
      run.pass noticed c = run.pass noticed' c := by
    unfold Run.pass
    rw [same c early]
  simp [draft, pass]

theorem Compiler.start_congr (p : Compiler) (request : Request)
    (same : ∀ c ≠ Checkpoint.sealed, noticed c = noticed' c) :
    p.start request noticed = p.start request noticed' := by
  unfold Compiler.start
  congr
  funext settings
  exact draft_congr _ _ _ _ same

/-- A compilation that comes up to its module has passed five checkpoints. -/
theorem gives_draft (rules : List Rule) (settings : Config) (mode : Mode) (source : String)
    (noticed : Checkpoint → Bool) :
    Step.Gives (fun result => result.success = false)
      (fun _ => ∀ c ≠ Checkpoint.sealed, noticed c = false)
      (draft rules settings mode source noticed) := by
  unfold draft
  dsimp only
  split
  · exact Step.gives_throw_bind rfl
  refine Step.gives_bind (Run.gives_pass _ rfl fun grammar => ?_)
  split
  · rfl
  refine Step.gives_bind (Run.gives_pass _ rfl fun semantic => ?_)
  refine Step.gives_bind (Run.gives_pass _ rfl fun security => ?_)
  split
  · exact Step.gives_throw_bind rfl
  refine Step.gives_bind (Run.gives_pass _ rfl fun optimization => ?_)
  refine Step.gives_bind (Run.gives_pass _ rfl fun codegen => ?_)
  intro c early
  cases c with
  | grammar => exact grammar
  | semantic => exact semantic
  | security => exact security
  | optimization => exact optimization
  | codegen => exact codegen
  | sealed => exact absurd rfl early

theorem Draft.success_finish_of_cancelled (d : Draft) (schedule : Gas.Schedule)
    (payload? : Option Wasm.Bytes) : (d.finish schedule payload? true).success = false := by
  simp [Draft.finish, Run.fail, Result.success]

/-- A compilation that succeeds has not noticed a cancellation anywhere. -/
theorem Compiler.unnoticed_of_success (compiles : (p.compile request noticed).1 = .ok result)
    (success : result.success) (c : Checkpoint) : noticed c = false := by
  rcases Compiler.compile_eq_ok_iff.1 compiles with early | ⟨d, starts, rfl⟩
  · obtain ⟨settings, -, ends⟩ := Compiler.start_eq_ok_iff.1 early
    have gives := gives_draft p.rules settings request.mode request.source noticed
    rw [ends] at gives
    simp [Step.Gives, success] at gives
  · obtain ⟨settings, -, drafts⟩ := Compiler.start_eq_ok_iff.1 starts
    have gives := gives_draft p.rules settings request.mode request.source noticed
    rw [drafts] at gives
    by_cases last : c = .sealed
    · subst last
      cases cancelled : noticed .sealed with
      | false => rfl
      | true =>
          rw [cancelled, Bool.true_or, Draft.success_finish_of_cancelled] at success
          cases success
    · exact gives c last

end Workbench.Pipeline
