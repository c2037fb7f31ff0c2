import Workbench.Proofs.Lang.Outcome

/-!
# What evaluations leave alone

An evaluation can change the state of the host only by requests. So what every request that it makes
preserves, it preserves, in whatever way it ends: with a value, in a trap, stuck or out of fuel.
-/

namespace Workbench.Lang

variable {State α β : Type} {Inv : State → Prop}

/-- An invariant of the host that holds before an evaluation holds behind it, however it ends. -/
def Eval.Preserves (Inv : State → Prop) (x : Eval State α) : Prop :=
  ∀ state, Inv state → Inv (x.outcome state).2

/-- The host serves all requests for an operation without breaking an invariant. -/
def Host.Preserves (host : Host State) (Inv : State → Prop) (kind : Builtin) : Prop :=
  ∀ args state, Inv state → Inv (host.serve ⟨kind, args⟩ state).2

namespace Eval.Preserves

theorem pure (a : α) : Preserves Inv (pure a : Eval State α) :=
  fun _ inv => inv

theorem throw (halt : Halt) : Preserves Inv (throw halt : Eval State α) :=
  fun _ inv => inv

theorem bind {x : Eval State α} {f : α → Eval State β} (hx : Preserves Inv x)
    (hf : ∀ a, Preserves Inv (f a)) : Preserves Inv (x >>= f) := by
  intro state inv
  have first := hx state inv
  rw [outcome_bind]
  rcases h : x.outcome state with ⟨_ | a, state'⟩
  · rw [h] at first
    exact first
  · rw [h] at first
    exact hf a state' first

theorem orTrap (a? : Option α) : Preserves Inv (Eval.orTrap a? : Eval State α) := by
  cases a? with
  | none => exact throw _
  | some a => exact pure a

theorem needed (a? : Option α) : Preserves Inv (Eval.needed a? : Eval State α) := by
  cases a? with
  | none => exact throw _
  | some a => exact pure a

theorem ask {host : Host State} {kind : Builtin} (h : host.Preserves Inv kind)
    (args : List Word) : Preserves Inv (Eval.ask host kind args) := by
  intro state inv
  have served := h args state inv
  rw [outcome_ask]
  rcases hr : host.serve ⟨kind, args⟩ state with ⟨_ | answer, state'⟩ <;>
    · rw [hr] at served
      exact served

theorem evaluate {lhs rhs : Eval State Word} (op : BinaryOp) (hl : Preserves Inv lhs)
    (hr : Preserves Inv rhs) : Preserves Inv (op.evaluate lhs rhs) := by
  refine hl.bind fun a => ?_
  cases op.settled? a with
  | some value => exact pure value
  | none => exact hr.bind fun b => orTrap _

theorem andThen {Vars : Type} {next : Vars → Eval State (Flow Vars)}
    (h : ∀ vars, Preserves Inv (next vars)) (flow : Flow Vars) :
    Preserves Inv (flow.andThen next) := by
  cases flow with
  | next vars => exact h vars
  | returned value => exact pure _

theorem loop {Vars : Type} {test : Vars → Eval State Word}
    {body : Vars → Eval State (Flow Vars)} (ht : ∀ vars, Preserves Inv (test vars))
    (hb : ∀ vars, Preserves Inv (body vars)) (rounds : Nat) (vars : Vars) :
    Preserves Inv (Flow.loop test body rounds vars) := by
  induction rounds generalizing vars with
  | zero => exact throw _
  | succ rounds ih =>
      refine (ht vars).bind fun w => ?_
      split
      · exact pure _
      · exact (hb vars).bind fun flow => andThen ih flow

theorem resultOf {Vars : Type} (owed : Bool) (flow : Flow Vars) :
    Preserves Inv (Lang.resultOf owed flow : Eval State (Option Word)) := by
  unfold Lang.resultOf
  split <;> first | exact pure _ | exact throw _

end Eval.Preserves

end Workbench.Lang
