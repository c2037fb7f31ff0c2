import Workbench.Lang.Evaluation

/-!
# Reasoning about evaluations

An evaluation is a function from states of the host to an outcome. Three relations are all that the
theory of contracts needs of it. `Keeps` says what holds behind an evaluation that starts under an
invariant of the host, `SameUnder` compares two evaluations under such an invariant, and
`Approximates` compares an evaluation with one that has more fuel. Each has one rule per way of
putting evaluations together, so that proofs about contracts never look at states themselves.
-/

namespace Workbench.Lang.Eval

variable {State α β : Type}

/-! ### Outcomes -/

/-- What an evaluation comes to from a state, with the state behind it. -/
def outcome (x : Eval State α) (state : State) : Except Halt α × State :=
  StateT.run (ExceptT.run x) state

@[simp] theorem outcome_pure (a : α) (state : State) :
    (pure a : Eval State α).outcome state = (.ok a, state) := rfl

@[simp] theorem outcome_throw (halt : Halt) (state : State) :
    (throw halt : Eval State α).outcome state = (.error halt, state) := rfl

theorem outcome_bind (x : Eval State α) (f : α → Eval State β) (state : State) :
    (x >>= f).outcome state =
      match x.outcome state with
      | (.ok a, state) => (f a).outcome state
      | (.error halt, state) => (.error halt, state) := by
  change (match StateT.run (ExceptT.run x) state with
    | (r, state) => StateT.run (ExceptT.bindCont f r) state) = _
  unfold outcome
  rcases StateT.run (ExceptT.run x) state with ⟨r, state⟩
  cases r <;> rfl

theorem outcome_bind_ok {x : Eval State α} {f : α → Eval State β} {state state' : State} {a : α}
    (h : x.outcome state = (.ok a, state')) : (x >>= f).outcome state = (f a).outcome state' := by
  rw [outcome_bind, h]

theorem outcome_bind_error {x : Eval State α} {f : α → Eval State β} {state state' : State}
    {halt : Halt} (h : x.outcome state = (.error halt, state')) :
    (x >>= f).outcome state = (.error halt, state') := by
  rw [outcome_bind, h]

theorem map_eq_bind (f : α → β) (x : Eval State α) : f <$> x = x >>= fun a => pure (f a) :=
  map_eq_pure_bind f x

/-- The host answers a request, or stops the run. -/
theorem outcome_ask (host : Host State) (kind : Builtin) (args : List Word) (state : State) :
    (ask host kind args).outcome state =
      match host.serve ⟨kind, args⟩ state with
      | (some answer, state) => (.ok answer, state)
      | (none, state) => (.error .trapped, state) := by
  have asked : (ask host kind args).outcome state =
      (orTrap (host.serve ⟨kind, args⟩ state).1).outcome (host.serve ⟨kind, args⟩ state).2 := rfl
  rw [asked]
  rcases host.serve ⟨kind, args⟩ state with ⟨answer?, state⟩
  cases answer? <;> rfl

/-! ### What holds behind an evaluation -/

/-- Started under an invariant of the host, an evaluation keeps it and is not stuck, and what it
comes to has a property. -/
def Keeps (Inv : State → Prop) (P : α → Prop) (x : Eval State α) : Prop :=
  ∀ state, Inv state → Inv (x.outcome state).2 ∧
    match (x.outcome state).1 with
    | .ok a => P a
    | .error halt => halt ≠ .stuck

namespace Keeps

variable {Inv : State → Prop} {P : α → Prop} {Q : β → Prop}

theorem pure {a : α} (h : P a) : Keeps Inv P (pure a : Eval State α) :=
  fun _ inv => ⟨inv, h⟩

theorem throw {halt : Halt} (h : halt ≠ .stuck) : Keeps Inv P (throw halt : Eval State α) :=
  fun _ inv => ⟨inv, h⟩

theorem bind {x : Eval State α} {f : α → Eval State β} (hx : Keeps Inv P x)
    (hf : ∀ a, P a → Keeps Inv Q (f a)) : Keeps Inv Q (x >>= f) := by
  intro state inv
  obtain ⟨inv', value⟩ := hx state inv
  rw [outcome_bind]
  rcases h : x.outcome state with ⟨_ | a, state'⟩
  · rw [h] at inv' value
    exact ⟨inv', value⟩
  · rw [h] at inv' value
    exact hf a value state' inv'

theorem weaken {P' : α → Prop} {x : Eval State α} (hx : Keeps Inv P x) (h : ∀ a, P a → P' a) :
    Keeps Inv P' x := by
  intro state inv
  obtain ⟨inv', value⟩ := hx state inv
  refine ⟨inv', ?_⟩
  rcases hr : x.outcome state with ⟨_ | a, state'⟩
  · rw [hr] at value
    exact value
  · rw [hr] at value
    exact h a value

theorem orTrap {a? : Option α} (h : ∀ a, a? = some a → P a) :
    Keeps Inv P (Eval.orTrap a? : Eval State α) := by
  cases a? with
  | none => exact Keeps.throw (by decide)
  | some a => exact Keeps.pure (h a rfl)

theorem needed {a : α} (h : P a) : Keeps Inv P (Eval.needed (some a) : Eval State α) :=
  Keeps.pure h

/-- A request keeps the invariant if the host does. -/
theorem ask {host : Host State} {kind : Builtin} {args : List Word} {P : Word → Prop}
    (h : ∀ state, Inv state → Inv (host.serve ⟨kind, args⟩ state).2 ∧
      ∀ answer, (host.serve ⟨kind, args⟩ state).1 = some answer → P answer) :
    Keeps Inv P (Eval.ask host kind args) := by
  intro state inv
  obtain ⟨inv', answered⟩ := h state inv
  rw [outcome_ask]
  rcases hr : host.serve ⟨kind, args⟩ state with ⟨_ | answer, state'⟩
  · rw [hr] at inv'
    exact ⟨inv', fun h => nomatch h⟩
  · rw [hr] at inv' answered
    exact ⟨inv', answered answer rfl⟩

end Keeps

/-! ### Evaluations that agree under an invariant -/

/-- Two evaluations come to the same from every state with an invariant. -/
def SameUnder (Inv : State → Prop) (x y : Eval State α) : Prop :=
  ∀ state, Inv state → x.outcome state = y.outcome state

namespace SameUnder

variable {Inv : State → Prop} {P : α → Prop}

theorem refl (x : Eval State α) : SameUnder Inv x x :=
  fun _ _ => rfl

theorem of_eq {x y : Eval State α} (h : x = y) : SameUnder Inv x y :=
  h ▸ refl x

theorem symm {x y : Eval State α} (h : SameUnder Inv x y) : SameUnder Inv y x :=
  fun state inv => (h state inv).symm

theorem trans {x y z : Eval State α} (hxy : SameUnder Inv x y) (hyz : SameUnder Inv y z) :
    SameUnder Inv x z :=
  fun state inv => (hxy state inv).trans (hyz state inv)

/-- What follows has to agree only on the values that the first part can have. -/
theorem bind {x y : Eval State α} {f g : α → Eval State β} (hxy : SameUnder Inv x y)
    (hy : Keeps Inv P y) (hfg : ∀ a, P a → SameUnder Inv (f a) (g a)) :
    SameUnder Inv (x >>= f) (y >>= g) := by
  intro state inv
  obtain ⟨inv', value⟩ := hy state inv
  rw [outcome_bind, outcome_bind, hxy state inv]
  rcases hr : y.outcome state with ⟨_ | a, state'⟩
  · rfl
  · rw [hr] at inv' value
    exact hfg a value state' inv'

theorem keeps {x y : Eval State α} (h : SameUnder Inv x y) (hy : Keeps Inv P y) :
    Keeps Inv P x := by
  intro state inv
  rw [h state inv]
  exact hy state inv

end SameUnder

/-! ### Evaluations with more fuel -/

/-- From every state with an invariant, an evaluation comes to the same as another one, unless it
runs out of fuel. -/
def Approximates (Inv : State → Prop) (x y : Eval State α) : Prop :=
  ∀ state, Inv state →
    (x.outcome state).1 = .error .outOfFuel ∨ x.outcome state = y.outcome state

namespace Approximates

variable {Inv : State → Prop} {P : α → Prop}

theorem refl (x : Eval State α) : Approximates Inv x x :=
  fun _ _ => .inr rfl

theorem outOfFuel (x : Eval State α) : Approximates Inv (throw .outOfFuel) x :=
  fun _ _ => .inl rfl

theorem of_sameUnder {x y : Eval State α} (h : SameUnder Inv x y) : Approximates Inv x y :=
  fun state inv => .inr (h state inv)

theorem trans {x y z : Eval State α} (hxy : Approximates Inv x y) (hyz : Approximates Inv y z) :
    Approximates Inv x z := by
  intro state inv
  rcases hxy state inv with h | h
  · exact .inl h
  · rw [h]
    exact hyz state inv

/-- What follows is only compared on the values that the first part can have. -/
theorem bind {x y : Eval State α} {f g : α → Eval State β} (hxy : Approximates Inv x y)
    (hy : Keeps Inv P y) (hfg : ∀ a, P a → Approximates Inv (f a) (g a)) :
    Approximates Inv (x >>= f) (y >>= g) := by
  intro state inv
  rcases hxy state inv with h | h
  · rcases hr : x.outcome state with ⟨r, state'⟩
    rw [hr] at h
    subst h
    exact .inl (by rw [outcome_bind_error hr])
  · obtain ⟨inv', value⟩ := hy state inv
    rw [outcome_bind, outcome_bind, h]
    rcases hr : y.outcome state with ⟨_ | a, state'⟩
    · exact .inr rfl
    · rw [hr] at inv' value
      exact hfg a value state' inv'

end Approximates

/-! ### Comparing by parts -/

/-- A way of comparing evaluations that can be put together from comparisons of their parts. -/
structure Compares (Inv : State → Prop)
    (R : ∀ {α : Type}, Eval State α → Eval State α → Prop) : Prop where
  refl : ∀ {α : Type} (x : Eval State α), R x x
  bind : ∀ {α β : Type} {P : α → Prop} {x y : Eval State α} {f g : α → Eval State β},
    R x y → Keeps Inv P y → (∀ a, P a → R (f a) (g a)) → R (x >>= f) (y >>= g)

theorem SameUnder.compares {Inv : State → Prop} : Compares Inv (SameUnder Inv) :=
  ⟨SameUnder.refl, SameUnder.bind⟩

theorem Approximates.compares {Inv : State → Prop} : Compares Inv (Approximates Inv) :=
  ⟨Approximates.refl, Approximates.bind⟩

end Workbench.Lang.Eval
