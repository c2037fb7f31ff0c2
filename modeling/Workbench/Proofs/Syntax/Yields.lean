import Workbench.Syntax.Parser

/-!
# What a reader can yield

A property of everything that a reader may return, whatever it reads, with one rule for each way in
which readers are put together. Where a reader fails there is nothing to show.
-/

namespace Workbench.Syntax.Parser

variable {α β : Type}

/-- Everything that the reader returns is `good`. -/
def Yields (p : Parser α) (good : α → Prop) : Prop :=
  ∀ s a s', p.run s = .ok (a, s') → good a

theorem yields_any (p : Parser α) : Yields p fun _ => True :=
  fun _ _ _ _ => trivial

theorem yields_pure {good : α → Prop} {a : α} (h : good a) : Yields (pure a) good := by
  intro s b s' run
  cases run
  exact h

theorem Yields.bind {p : Parser α} {f : α → Parser β} {good : α → Prop} {best : β → Prop}
    (first : Yields p good) (then_ : ∀ a, good a → Yields (f a) best) : Yields (p >>= f) best := by
  intro s b s' run
  rw [StateT.run_bind] at run
  cases h : p.run s with
  | error e =>
      rw [h] at run
      cases run
  | ok r =>
      rw [h] at run
      exact then_ r.1 (first s r.1 r.2 h) r.2 b s' run

/-- Nothing is known of the first result. -/
theorem yields_bind {p : Parser α} {f : α → Parser β} {best : β → Prop}
    (h : ∀ a, Yields (f a) best) : Yields (p >>= f) best :=
  (yields_any p).bind fun a _ => h a

theorem Yields.mono {p : Parser α} {good best : α → Prop} (h : Yields p good)
    (le : ∀ a, good a → best a) : Yields p best :=
  fun s a s' run => le a (h s a s' run)

theorem Yields.map {p : Parser α} {f : α → β} {good : α → Prop} {best : β → Prop}
    (h : Yields p good) (le : ∀ a, good a → best (f a)) : Yields (f <$> p) best := by
  rw [map_eq_pure_bind]
  exact h.bind fun a ha => yields_pure (le a ha)

theorem yields_throw {good : α → Prop} (e : GrammarError) : Yields (throw e) good := by
  intro s a s' run
  cases run

theorem yields_refuse {good : α → Prop} (problem : GrammarProblem) :
    Yields (refuse problem) good :=
  yields_bind fun _ => yields_throw _

theorem yields_unexpected {good : α → Prop} (what : String) : Yields (unexpected what) good :=
  yields_bind fun _ => yields_refuse _

theorem yields_ite {good : α → Prop} {c : Prop} [Decidable c] {p q : Parser α}
    (yes : c → Yields p good) (no : ¬ c → Yields q good) : Yields (if c then p else q) good := by
  split
  · exact yes ‹c›
  · exact no ‹¬ c›

/-! ### Repetition -/

variable {item : Parser α} {good : α → Prop}

theorem separatedAux_yields (h : Yields item good) (rounds : Nat) {done : List α}
    (hd : ∀ a ∈ done, good a) : Yields (separatedAux item rounds done) (∀ a ∈ ·, good a) := by
  induction rounds generalizing done with
  | zero => exact yields_pure (by simpa using hd)
  | succ rounds ih =>
      refine h.bind fun x hx => yields_bind fun comma => ?_
      have more := List.forall_mem_cons.2 ⟨hx, hd⟩
      refine yields_ite (fun _ => ih more) fun _ => yields_pure ?_
      intro a mem
      exact more a (List.mem_reverse.mp mem)

theorem arguments_yields (h : Yields item good) : Yields (arguments item) (∀ a ∈ ·, good a) := by
  refine yields_bind fun closed => yields_ite (fun _ => yields_pure (by simp)) fun _ => ?_
  exact yields_bind fun s => separatedAux_yields h _ (by simp)

theorem untilBraceAux_yields (h : Yields item good) (rounds : Nat) {done : List α}
    (hd : ∀ a ∈ done, good a) : Yields (untilBraceAux item rounds done) (∀ a ∈ ·, good a) := by
  have finished : ∀ a ∈ done.reverse, good a := fun a mem => hd a (List.mem_reverse.mp mem)
  induction rounds generalizing done with
  | zero => exact yields_pure finished
  | succ rounds ih =>
      refine yields_bind fun token => yields_ite (fun _ => yields_pure finished) fun _ => ?_
      refine h.bind fun x hx => ?_
      have more := List.forall_mem_cons.2 ⟨hx, hd⟩
      exact ih more fun a mem => more a (List.mem_reverse.mp mem)

theorem untilBrace_yields (h : Yields item good) : Yields (untilBrace item) (∀ a ∈ ·, good a) :=
  yields_bind fun s => untilBraceAux_yields h _ (by simp)

end Workbench.Syntax.Parser
