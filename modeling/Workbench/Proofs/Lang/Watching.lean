import Workbench.Proofs.Lang.Noting

/-!
# Evaluations under watch

An evaluation under watch writes down each of its steps and, before it traps, why. It is compared
with the same evaluation without the notes. Both come to the same from every state with an
invariant, they are never stuck, all that has been written down is good, and a trap is the last
thing that has been. This is said with one rule for each way of putting evaluations together.
-/

namespace Workbench.Lang

variable {State Note α β γ δ : Type}

/-! ### Steps that can trap -/

namespace Eval

/-- The value of an operation that can trap, with a note of the trap. -/
def orCause (cause : Note) : Option α → Eval (State × List Note) α
  | some a => return a
  | none => do
      note cause
      throw .trapped

/-- A request to the host, with a note if the host stops the run. -/
def asking (host : Host State) (kind : Builtin) (args : List Word) (refused : State → Note) :
    Eval (State × List Note) Word :=
  ExceptT.mk fun (state, notes) =>
    match host.serve ⟨kind, args⟩ state with
    | (some answer, state') => (.ok answer, state', notes)
    | (none, state') => (.error .trapped, state', notes ++ [refused state])

end Eval

/-- Evaluates an operator, with a note if it traps on its operands. -/
def BinaryOp.evaluateOrCause (op : BinaryOp) (cause : Word → Word → Note)
    (lhs rhs : Eval (State × List Note) Word) : Eval (State × List Note) Word := do
  let a ← lhs
  match op.settled? a with
  | some value => return value
  | none => do
      let b ← rhs
      Eval.orCause (cause a b) (op.combine? a b)

/-! ### What is watched -/

/-- What is expected of the states of the host and of the notes, and which notes are of traps. -/
structure Watch (State Note : Type) where
  inv : State → Prop
  good : Note → Prop
  traps : Note → Prop

/-- Two ends of which the first has notes: related values, a trap of which the last note is, or a
lack of fuel. -/
inductive SeenEnd (traps : Note → Prop) (Q : α → β → Prop) :
    List Note → Except Halt α → Except Halt β → Prop where
  | value {notes : List Note} {a : α} {b : β} : Q a b → SeenEnd traps Q notes (.ok a) (.ok b)
  | trapped {notes : List Note} {n : Note} : notes.getLast? = some n → traps n →
      SeenEnd traps Q notes (.error .trapped) (.error .trapped)
  | outOfFuel {notes : List Note} :
      SeenEnd traps Q notes (.error .outOfFuel) (.error .outOfFuel)

theorem SeenEnd.behind {traps : Note → Prop} {Q : α → β → Prop} {notes : List Note}
    {r : Except Halt α} {s : Except Halt β} (h : SeenEnd traps Q notes r s) (before : List Note) :
    SeenEnd traps Q (before ++ notes) r s := by
  cases h with
  | value related => exact .value related
  | trapped last trap => exact .trapped (by rw [List.getLast?_append, last]; rfl) trap
  | outOfFuel => exact .outOfFuel

/-- An evaluation with notes does what one without does, and goes as is expected. -/
def Watch.Sees (W : Watch State Note) (Q : α → β → Prop) (x : Eval (State × List Note) α)
    (y : Eval State β) : Prop :=
  ∀ state notes, W.inv state → ∃ more r s state',
    x.outcome (state, notes) = (r, state', notes ++ more) ∧ y.outcome state = (s, state') ∧
    W.inv state' ∧ (∀ n ∈ more, W.good n) ∧ SeenEnd W.traps Q more r s

/-- Both come to the same value, which has a property. -/
def Watch.Shows (W : Watch State Note) (P : α → Prop) (x : Eval (State × List Note) α)
    (y : Eval State α) : Prop :=
  W.Sees (fun a b => a = b ∧ P a) x y

variable {W : Watch State Note} {P : α → Prop} {Q : α → β → Prop} {Q' : γ → δ → Prop}

namespace Watch.Sees

open Eval (outcome_bind_ok outcome_bind_error)

theorem pure {a : α} {b : β} (h : Q a b) : W.Sees Q (pure a) (pure b) :=
  fun state notes inv => ⟨[], _, _, state, by simp, rfl, inv, by simp, .value h⟩

theorem outOfFuel : W.Sees Q (throw .outOfFuel) (throw .outOfFuel) :=
  fun state notes inv => ⟨[], _, _, state, by simp, rfl, inv, by simp, .outOfFuel⟩

theorem trapped {n : Note} (good : W.good n) (trap : W.traps n) :
    W.Sees Q (Eval.note n >>= fun _ => throw .trapped) (throw .trapped) :=
  fun state _ inv =>
    ⟨[n], _, _, state, rfl, rfl, inv, List.forall_mem_singleton.2 good, .trapped rfl trap⟩

theorem bind {x : Eval (State × List Note) α} {y : Eval State β}
    {f : α → Eval (State × List Note) γ} {g : β → Eval State δ} (hxy : W.Sees Q x y)
    (hfg : ∀ a b, Q a b → W.Sees Q' (f a) (g b)) : W.Sees Q' (x >>= f) (y >>= g) := by
  intro state notes inv
  obtain ⟨more, r, s, state', hx, hy, inv', good, ends⟩ := hxy state notes inv
  cases ends with
  | value related =>
      obtain ⟨others, r, s, final, hf, hg, inv, good', ends⟩ :=
        hfg _ _ related state' (notes ++ more) inv'
      refine ⟨more ++ others, r, s, final, ?_, ?_, inv, ?_, ends.behind more⟩
      · rw [outcome_bind_ok hx, hf, List.append_assoc]
      · rw [outcome_bind_ok hy, hg]
      · exact List.forall_mem_append.2 ⟨good, good'⟩
  | trapped last trap =>
      exact ⟨_, _, _, state', outcome_bind_error hx, outcome_bind_error hy, inv', good,
        .trapped last trap⟩
  | outOfFuel =>
      exact ⟨_, _, _, state', outcome_bind_error hx, outcome_bind_error hy, inv', good, .outOfFuel⟩

/-- More steps under watch that only look at the value. -/
theorem bind_left {x : Eval (State × List Note) α} {y : Eval State β}
    {f : α → Eval (State × List Note) γ} {R : γ → β → Prop} (hxy : W.Sees Q x y)
    (hf : ∀ a b, Q a b → W.Sees R (f a) (Pure.pure b)) : W.Sees R (x >>= f) y := by
  rw [← bind_pure y]
  exact hxy.bind hf

theorem note_bind {n : Note} {f : Unit → Eval (State × List Note) α} {y : Eval State β}
    (good : W.good n) (h : W.Sees Q (f ()) y) : W.Sees Q (Eval.note n >>= f) y := by
  intro state notes inv
  obtain ⟨more, r, s, state', hx, hy, inv', good', ends⟩ := h state (notes ++ [n]) inv
  refine ⟨n :: more, r, s, state', ?_, hy, inv', List.forall_mem_cons.2 ⟨good, good'⟩,
    ends.behind [n]⟩
  have noted : (Eval.note n).outcome (state, notes) = (.ok (), state, notes ++ [n]) := rfl
  rw [outcome_bind_ok noted, hx, List.append_assoc, List.singleton_append]

end Watch.Sees

/-! ### The same values -/

namespace Watch.Shows

theorem pure {a : α} (h : P a) : W.Shows P (pure a) (pure a) :=
  Sees.pure ⟨rfl, h⟩

theorem bind {x : Eval (State × List Note) α} {y : Eval State α}
    {f : α → Eval (State × List Note) γ} {g : α → Eval State δ} (hxy : W.Shows P x y)
    (hfg : ∀ a, P a → W.Sees Q' (f a) (g a)) : W.Sees Q' (x >>= f) (y >>= g) := by
  refine Sees.bind hxy fun a b same => ?_
  obtain ⟨rfl, h⟩ := same
  exact hfg a h

theorem weaken {x : Eval (State × List Note) α} {y : Eval State α} {P' : α → Prop}
    (h : W.Shows P x y) (sub : ∀ a, P a → P' a) : W.Shows P' x y := by
  rw [← bind_pure x, ← bind_pure y]
  exact h.bind fun a h => pure (sub a h)

/-- A note about the value of an evaluation. -/
theorem noting {x : Eval (State × List Note) α} {y : Eval State α} {n : α → Note}
    (h : W.Shows P x y) (good : ∀ a, P a → W.good (n a)) :
    W.Shows P (do let a ← x; Eval.note (n a); return a) y := by
  refine h.bind_left fun a b same => ?_
  obtain ⟨rfl, h⟩ := same
  exact Sees.note_bind (good a h) (pure h)

theorem orCause {a? : Option α} {n : Note} (value : ∀ a, a? = some a → P a)
    (good : a? = none → W.good n) (trap : W.traps n) :
    W.Shows P (Eval.orCause n a?) (Eval.orTrap a?) := by
  cases a? with
  | some a => exact pure (value a rfl)
  | none => exact Sees.trapped (good rfl) trap

/-- A request is answered within the invariant, or the host refuses it. -/
theorem asking {host : Host State} {kind : Builtin} {args : List Word} {refused : State → Note}
    {P : Word → Prop}
    (serves : ∀ state, W.inv state → W.inv (host.serve ⟨kind, args⟩ state).2 ∧
      ∀ answer, (host.serve ⟨kind, args⟩ state).1 = some answer → P answer)
    (good : ∀ state, (host.serve ⟨kind, args⟩ state).1 = none → W.good (refused state))
    (trap : ∀ state, W.traps (refused state)) :
    W.Shows P (Eval.asking host kind args refused) (Eval.ask host kind args) := by
  intro state notes inv
  obtain ⟨inv', answered⟩ := serves state inv
  have asked : (Eval.asking host kind args refused).outcome (state, notes) =
      match host.serve ⟨kind, args⟩ state with
      | (some answer, state') => (.ok answer, state', notes)
      | (none, state') => (.error .trapped, state', notes ++ [refused state]) := rfl
  have refuses := good state
  rcases served : host.serve ⟨kind, args⟩ state with ⟨_ | answer, state'⟩
  · rw [served] at asked inv' refuses
    exact ⟨[refused state], _, _, state', asked, by rw [Eval.outcome_ask, served], inv',
      List.forall_mem_singleton.2 (refuses rfl), .trapped rfl (trap state)⟩
  · rw [served] at asked inv' answered
    exact ⟨[], _, _, state', by rw [asked, List.append_nil],
      by rw [Eval.outcome_ask, served], inv', by simp, .value ⟨rfl, answered answer rfl⟩⟩

/-- An operator is settled by its first operand, combines both or traps. -/
theorem evaluate {op : BinaryOp} {cause : Word → Word → Note}
    {lhs rhs : Eval (State × List Note) Word} {lhs' rhs' : Eval State Word}
    {P Pl Pr : Word → Prop} (hl : W.Shows Pl lhs lhs') (hr : W.Shows Pr rhs rhs')
    (settles : ∀ a w, op.settled? a = some w → P w)
    (combines : ∀ a b w, Pr b → op.combine? a b = some w → P w)
    (good : ∀ a b, op.combine? a b = none → W.good (cause a b))
    (trap : ∀ a b, W.traps (cause a b)) :
    W.Shows P (op.evaluateOrCause cause lhs rhs) (op.evaluate lhs' rhs') := by
  refine hl.bind fun a _ => ?_
  cases settled : op.settled? a with
  | some w => exact pure (settles a w settled)
  | none =>
      exact hr.bind fun b hb =>
        orCause (fun w => combines a b w hb) (good a b) (trap a b)

end Watch.Shows

/-! ### Statements -/

namespace Watch.Sees

variable {Vars Vars' : Type}

/-- What is known of the ways in which statements end: variables that are related, unless control
does not get there, or a result of a kind. -/
inductive Ends (R : Vars → Vars' → Prop) (P : Option Word → Prop) (diverges : Bool) :
    Flow Vars → Flow Vars' → Prop where
  | next {vars : Vars} {vars' : Vars'} : diverges = false → R vars vars' →
      Ends R P diverges (.next vars) (.next vars')
  | returned {value : Option Word} : P value →
      Ends R P diverges (.returned value) (.returned value)

variable {R S : Vars → Vars' → Prop} {P : Option Word → Prop}

theorem Ends.weaken {diverges less : Bool} {flow : Flow Vars} {flow' : Flow Vars'}
    (h : Ends R P diverges flow flow') (sub : ∀ vars vars', R vars vars' → S vars vars')
    (le : less = true → diverges = true) : Ends S P less flow flow' := by
  cases h with
  | next passes related =>
      refine .next ?_ (sub _ _ related)
      cases less with
      | false => rfl
      | true => exact absurd (le rfl) (by simp [passes])
  | returned result => exact .returned result

/-- What follows a flow only has to be looked at where control gets. -/
theorem andThen {first rest : Bool} {flow : Flow Vars} {flow' : Flow Vars'}
    {next : Vars → Eval (State × List Note) (Flow Vars)} {next' : Vars' → Eval State (Flow Vars')}
    (h : Ends R P first flow flow')
    (hn : ∀ vars vars', first = false → R vars vars' →
      W.Sees (Ends S P rest) (next vars) (next' vars')) :
    W.Sees (Ends S P (first || rest)) (flow.andThen next) (flow'.andThen next') := by
  cases h with
  | next passes related =>
      rw [passes, Bool.false_or]
      exact hn _ _ passes related
  | returned result => exact pure (.returned result)

/-- A loop does what its rounds do, and is only left when its condition can fail. -/
theorem loop {test : Vars → Eval (State × List Note) Word} {test' : Vars' → Eval State Word}
    {body : Vars → Eval (State × List Note) (Flow Vars)} {body' : Vars' → Eval State (Flow Vars')}
    {endless : Bool}
    (ht : ∀ vars vars', R vars vars' →
      W.Shows (fun w => endless = true → w ≠ 0) (test vars) (test' vars'))
    (hb : ∀ vars vars', R vars vars' → W.Sees (Ends R P false) (body vars) (body' vars'))
    (rounds : Nat) {vars : Vars} {vars' : Vars'} (h : R vars vars') :
    W.Sees (Ends R P endless) (Flow.loop test body rounds vars)
      (Flow.loop test' body' rounds vars') := by
  induction rounds generalizing vars vars' with
  | zero => exact outOfFuel
  | succ rounds ih =>
      rw [Flow.loop, Flow.loop]
      refine (ht vars vars' h).bind fun w notZero => ?_
      split
      case isTrue zero =>
        refine pure (.next ?_ h)
        cases endless with
        | false => rfl
        | true => exact absurd zero (notZero rfl)
      case isFalse =>
        exact (hb vars vars' h).bind fun flow flow' ends => andThen ends fun _ _ _ => ih

end Watch.Sees

end Workbench.Lang
