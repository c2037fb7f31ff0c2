import Workbench.Proofs.Lang.Outcome
import Workbench.Proofs.Wasm.Runs

/-!
# Runs that follow evaluations

A run follows an evaluation from a state if it does what the evaluation does. A value means that the
run leads to one of the runs that are expected for the value and the state behind it, and a trap
that it traps. An evaluation that is out of fuel says how long the run goes on at least, so that a
run that ends is followed by an evaluation that does. What the evaluation is stuck at does not
matter; typing excludes it.
-/

namespace Workbench.Codegen

open Lang (Eval)
open Lang.Eval (Keeps)
open Wasm (Flow Run)
open Wasm.Run (Leads Stalls halted within Passes)

variable {State α β : Type}

/-- The runs that are expected for a value and the state behind it. -/
abbrev Expected (State α : Type) := α → State → Run State → Prop

/-- A run does what is asked of it by the outcome of an evaluation; the number is how much fuel does
not suffice for it where the evaluation is out of fuel. -/
def Realizes (n : Nat) (run : Run State) (expected : Expected State α) :
    Except Lang.Halt α × State → Prop
  | (.ok a, state) => ∃ y, expected a state y ∧ run.Leads y
  | (.error .trapped, state) =>
      ∃ trap, trap ≠ .stackExhausted ∧ run.Leads (halted (.trapped trap state))
  | (.error .outOfFuel, _) => run.Stalls n
  | (.error .stuck, _) => True

/-- From a state a run follows an evaluation, to expected runs. -/
def Follows (n : Nat) (x : Eval State α) (state : State) (run : Run State)
    (expected : Expected State α) : Prop :=
  Realizes n run expected (x.outcome state)

theorem Realizes.of_leads {n : Nat} {run y : Run State} {expected : Expected State α}
    {outcome : Except Lang.Halt α × State} (hxy : run.Leads y)
    (h : Realizes n y expected outcome) : Realizes n run expected outcome := by
  rcases outcome with ⟨(_ | _ | _) | a, state⟩
  · obtain ⟨trap, notExhausted, leads⟩ := h
    exact ⟨trap, notExhausted, hxy.trans leads⟩
  · trivial
  · exact Stalls.of_leads hxy h
  · obtain ⟨z, hz, leads⟩ := h
    exact ⟨z, hz, hxy.trans leads⟩

theorem Realizes.weaken {m n : Nat} {run : Run State} {expected : Expected State α}
    {outcome : Except Lang.Halt α × State} (h : Realizes n run expected outcome) (le : m ≤ n) :
    Realizes m run expected outcome := by
  rcases outcome with ⟨(_ | _ | _) | a, state⟩
  · exact h
  · trivial
  · exact Stalls.weaken h le
  · exact h

/-- What comes after an inner run that is at its end is reached, and takes more fuel. -/
theorem Realizes.within {n calls : Nat} {outer : State} {inner : Run State}
    {after : Flow State → Run State} (passes : Passes after) {flow : Flow State}
    {expected : Expected State α} {outcome : Except Lang.Halt α × State}
    (leads : inner.Leads (halted flow)) (h : Realizes n (after flow) expected outcome) :
    Realizes (n + 1) (within outer calls inner after) expected outcome := by
  rcases outcome with ⟨(_ | _ | _) | a, state⟩
  · obtain ⟨trap, notExhausted, leads'⟩ := h
    exact ⟨trap, notExhausted, (Run.leads_within passes leads).trans leads'⟩
  · trivial
  · exact Run.stalls_within_of_leads passes leads h
  · obtain ⟨z, hz, leads'⟩ := h
    exact ⟨z, hz, (Run.leads_within passes leads).trans leads'⟩

namespace Follows

variable {n : Nat} {x : Eval State α} {f : α → Eval State β} {state : State} {run : Run State}
  {expected : Expected State α} {expected' : Expected State β}

/-! ### Ends of evaluations -/

theorem pure {a : α} (h : expected a state run) : Follows n (pure a) state run expected :=
  ⟨run, h, Leads.refl run⟩

theorem stuck : Follows n (throw .stuck) state run expected :=
  trivial

theorem trapped {trap : Wasm.Trap} (h : run.Leads (halted (.trapped trap state)))
    (notExhausted : trap ≠ .stackExhausted) : Follows n (throw .trapped) state run expected :=
  ⟨trap, notExhausted, h⟩

theorem outOfFuel (h : run.Stalls n) : Follows n (throw .outOfFuel) state run expected :=
  h

theorem needed {a? : Option α} (h : ∀ a, a? = some a → expected a state run) :
    Follows n (Eval.needed a?) state run expected := by
  cases a? with
  | none => exact stuck
  | some a => exact pure (h a rfl)

/-! ### Evaluations in order -/

theorem of_leads {y : Run State} (hxy : run.Leads y) (h : Follows n x state y expected) :
    Follows n x state run expected :=
  Realizes.of_leads hxy h

theorem weaken {m : Nat} (h : Follows n x state run expected) (le : m ≤ n) :
    Follows m x state run expected :=
  Realizes.weaken h le

theorem bind (h : Follows n x state run expected)
    (next : ∀ a state y, expected a state y → Follows n (f a) state y expected') :
    Follows n (x >>= f) state run expected' := by
  unfold Follows at h ⊢
  rcases hr : x.outcome state with ⟨halt | a, state'⟩
  · rw [hr] at h
    rw [Eval.outcome_bind_error hr]
    cases halt <;> exact h
  · rw [hr] at h
    rw [Eval.outcome_bind_ok hr]
    obtain ⟨y, hy, leads⟩ := h
    exact Realizes.of_leads leads (next a state' y hy)

/-- What is known of the value of an evaluation holds for the runs that are expected for it. -/
theorem keeping {P : α → Prop} (h : Follows n x state run expected)
    (keeps : Keeps (fun _ => True) P x) :
    Follows n x state run fun a state y => P a ∧ expected a state y := by
  have value := (keeps state trivial).2
  unfold Follows at h ⊢
  rcases hr : x.outcome state with ⟨halt | a, state'⟩
  · rw [hr] at h
    cases halt <;> exact h
  · rw [hr] at h value
    obtain ⟨y, hy, leads⟩ := h
    exact ⟨y, ⟨value, hy⟩, leads⟩

/-- A run around a run that follows an evaluation follows what comes after, and takes more fuel. -/
theorem within {outer : State} {calls : Nat} {after : Flow State → Run State}
    (passes : Passes after) (h : Follows n x state run expected)
    (next : ∀ a state y, expected a state y →
      ∃ flow, y = halted flow ∧ Follows n (f a) state (after flow) expected') :
    Follows (n + 1) (x >>= f) state (within outer calls run after) expected' := by
  unfold Follows at h ⊢
  rcases hr : x.outcome state with ⟨halt | a, state'⟩
  · rw [hr] at h
    rw [Eval.outcome_bind_error hr]
    cases halt with
    | trapped =>
        obtain ⟨trap, notExhausted, leads⟩ := h
        refine ⟨trap, notExhausted, ?_⟩
        rw [← passes.trapped]
        exact Run.leads_within passes leads
    | stuck => trivial
    | outOfFuel => exact Run.stalls_within passes h
  · rw [hr] at h
    rw [Eval.outcome_bind_ok hr]
    obtain ⟨y, hy, leads⟩ := h
    obtain ⟨flow, rfl, follows⟩ := next a state' y hy
    exact Realizes.within passes leads follows

/-- A run around a run that follows an evaluation follows it to what comes after. -/
theorem within_self {outer : State} {calls : Nat} {after : Flow State → Run State}
    {expected' : Expected State α} (passes : Passes after) (h : Follows n x state run expected)
    (next : ∀ a state y, expected a state y →
      ∃ flow, y = halted flow ∧ expected' a state (after flow)) :
    Follows (n + 1) x state (Run.within outer calls run after) expected' := by
  rw [← bind_pure x]
  refine within passes h fun a state y hy => ?_
  obtain ⟨flow, same, h⟩ := next a state y hy
  exact ⟨flow, same, Follows.pure h⟩

end Follows

end Workbench.Codegen
