import Workbench.Proofs.Lang.Outcome

/-!
# Evaluations over different variables

Two forms of a contract keep their variables in different ways and are evaluated next to the same
host. `Alike` says that two evaluations leave the same state from every state and halt for the same
reason, or come to values that stand in a given relation. There is one rule for each way of putting
evaluations together; a loop needs as many rounds in one form as in the other.
-/

namespace Workbench.Lang

namespace Eval

variable {State α β γ δ : Type}

/-- Two ends in the same state: without a result for the same reason, or with related values. -/
inductive SameEnd (R : α → β → Prop) : Except Halt α × State → Except Halt β × State → Prop where
  | value {a : α} {b : β} {state : State} : R a b → SameEnd R (.ok a, state) (.ok b, state)
  | halt {halt : Halt} {state : State} : SameEnd R (.error halt, state) (.error halt, state)

/-- Two evaluations have the same end from every state, with related values. -/
def Alike (R : α → β → Prop) (x : Eval State α) (y : Eval State β) : Prop :=
  ∀ state, SameEnd R (x.outcome state) (y.outcome state)

namespace Alike

variable {R : α → β → Prop} {S : γ → δ → Prop}

theorem pure {a : α} {b : β} (h : R a b) :
    Alike R (pure a : Eval State α) (pure b : Eval State β) :=
  fun _ => .value h

theorem throw (halt : Halt) :
    Alike R (throw halt : Eval State α) (throw halt : Eval State β) :=
  fun _ => .halt

theorem bind {x : Eval State α} {y : Eval State β} {f : α → Eval State γ} {g : β → Eval State δ}
    (hxy : Alike R x y) (hfg : ∀ a b, R a b → Alike S (f a) (g b)) :
    Alike S (x >>= f) (y >>= g) := by
  intro state
  have ends := hxy state
  rw [outcome_bind, outcome_bind]
  generalize x.outcome state = endOfX at ends ⊢
  generalize y.outcome state = endOfY at ends ⊢
  cases ends with
  | value related => exact hfg _ _ related _
  | halt => exact .halt

theorem refl (x : Eval State α) : Alike Eq x x := by
  intro state
  rcases x.outcome state with ⟨_ | a, state⟩
  · exact .halt
  · exact .value rfl

/-- What two evaluations have in common first need not be looked at. -/
theorem bind_same (x : Eval State α) {f : α → Eval State γ} {g : α → Eval State δ}
    (hfg : ∀ a, Alike S (f a) (g a)) : Alike S (x >>= f) (x >>= g) :=
  (refl x).bind fun a _ same => same ▸ hfg a

theorem eq {x y : Eval State α} (h : Alike Eq x y) : x = y := by
  funext state
  have ends : SameEnd Eq (x state) (y state) := h state
  generalize x state = endOfX at ends ⊢
  generalize y state = endOfY at ends ⊢
  cases ends with
  | value same => rw [same]
  | halt => rfl

end Alike

end Eval

/-! ### Statements -/

/-- Two statements end in the same way, with related variables if control goes on. -/
inductive Flow.Alike {Vars Vars' : Type} (R : Vars → Vars' → Prop) : Flow Vars → Flow Vars' → Prop
  | next {vars : Vars} {vars' : Vars'} : R vars vars' → Flow.Alike R (.next vars) (.next vars')
  | returned {value : Option Word} : Flow.Alike R (.returned value) (.returned value)

namespace Eval.Alike

variable {State Vars Vars' Next Next' : Type} {R : Vars → Vars' → Prop} {S : Next → Next' → Prop}

theorem andThen {flow : Flow Vars} {flow' : Flow Vars'} {rest : Vars → Eval State (Flow Vars)}
    {rest' : Vars' → Eval State (Flow Vars')} {S : Vars → Vars' → Prop}
    (h : flow.Alike R flow')
    (hr : ∀ vars vars', R vars vars' → Alike (Flow.Alike S) (rest vars) (rest' vars')) :
    Alike (Flow.Alike S) (flow.andThen rest) (flow'.andThen rest') := by
  cases h with
  | next related => exact hr _ _ related
  | returned => exact .pure .returned

/-- Loops with related variables in every round. -/
theorem loop {test : Vars → Eval State Word} {test' : Vars' → Eval State Word}
    {body : Vars → Eval State (Flow Vars)} {body' : Vars' → Eval State (Flow Vars')}
    (ht : ∀ vars vars', R vars vars' → test vars = test' vars')
    (hb : ∀ vars vars', R vars vars' → Alike (Flow.Alike R) (body vars) (body' vars'))
    (fuel : Nat) {vars : Vars} {vars' : Vars'} (h : R vars vars') :
    Alike (Flow.Alike R) (Flow.loop test body fuel vars) (Flow.loop test' body' fuel vars') := by
  induction fuel generalizing vars vars' with
  | zero => exact .throw _
  | succ fuel ih =>
      rw [Flow.loop, Flow.loop, ht vars vars' h]
      refine .bind_same _ fun w => ?_
      split
      · exact .pure (.next h)
      · exact (hb vars vars' h).bind fun _ _ flows => .andThen flows fun _ _ => ih

/-- A call gives the same for bodies that end in the same way. -/
theorem resultOf {x : Eval State (Flow Vars)} {y : Eval State (Flow Vars')} (owed : Bool)
    (h : Alike (Flow.Alike R) x y) :
    (x >>= fun flow => Lang.resultOf owed flow) = y >>= fun flow => Lang.resultOf owed flow := by
  refine (h.bind fun flow flow' flows => ?_).eq
  cases flows with
  | next => cases owed <;> exact .refl _
  | @returned value => cases value <;> cases owed <;> exact .refl _

end Eval.Alike

end Workbench.Lang
