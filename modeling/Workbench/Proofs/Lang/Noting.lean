import Workbench.Proofs.Lang.Outcome

/-!
# Evaluations that take notes

An evaluation can write down what it passes, next to the host and unseen by it. `Notes` compares it
with the same evaluation without the notes: both come to the same, and what has been written down
follows a given text. It may skip parts of the text, and it may go back in the text only between
places that control can pass again.
-/

namespace Workbench.Lang

variable {Note : Type}

/-! ### Notes that follow a text -/

/-- Notes are taken from a text, in its order up to steps back between places that are passed again
and again. -/
structure Follows (again : Note → Note → Prop) (text notes : List Note) : Prop where
  mem : ∀ n ∈ notes, n ∈ text
  order : ∀ a b, [a, b].Sublist notes → [a, b].Sublist text ∨ again a b

/-- A pair stands in one of two parts or in both. -/
theorem pair_sublist_append_iff {a b : Note} {first rest : List Note} :
    [a, b].Sublist (first ++ rest) ↔
      [a, b].Sublist first ∨ (a ∈ first ∧ b ∈ rest) ∨ [a, b].Sublist rest := by
  constructor
  · intro h
    obtain ⟨left, right, split, inFirst, inRest⟩ := List.sublist_append_iff.1 h
    match left, split with
    | [], split =>
        rw [List.nil_append] at split
        subst split
        exact .inr (.inr inRest)
    | [x], split =>
        simp only [List.cons_append, List.nil_append, List.cons.injEq] at split
        obtain ⟨rfl, rfl⟩ := split
        exact .inr (.inl ⟨List.singleton_sublist.1 inFirst, List.singleton_sublist.1 inRest⟩)
    | x :: y :: more, split =>
        simp only [List.cons_append, List.cons.injEq] at split
        obtain ⟨rfl, rfl, none⟩ := split
        obtain ⟨rfl, rfl⟩ := List.append_eq_nil_iff.1 none.symm
        exact .inl inFirst
  · rintro (h | ⟨inFirst, inRest⟩ | h)
    · exact h.trans (List.sublist_append_left first rest)
    · exact (List.singleton_sublist.2 inFirst).append (List.singleton_sublist.2 inRest)
    · exact h.trans (List.sublist_append_right first rest)

namespace Follows

variable {again : Note → Note → Prop} {text text' notes more : List Note}

theorem nil : Follows again text [] := by
  constructor
  · simp
  · simp

theorem singleton (n : Note) : Follows again [n] [n] := by
  constructor
  · simp
  · intro a b h
    have := h.length_le
    simp at this

theorem append (h : Follows again text notes) (h' : Follows again text' more) :
    Follows again (text ++ text') (notes ++ more) := by
  constructor
  · intro n mem
    rcases List.mem_append.1 mem with mem | mem
    · exact List.mem_append_left _ (h.mem n mem)
    · exact List.mem_append_right _ (h'.mem n mem)
  · intro a b pair
    rcases pair_sublist_append_iff.1 pair with pair | ⟨ha, hb⟩ | pair
    · exact (h.order a b pair).imp_left fun p => pair_sublist_append_iff.2 (.inl p)
    · exact .inl (pair_sublist_append_iff.2 (.inr (.inl ⟨h.mem a ha, h'.mem b hb⟩)))
    · exact (h'.order a b pair).imp_left fun p => pair_sublist_append_iff.2 (.inr (.inr p))

theorem mono (h : Follows again text notes) (sub : text.Sublist text') :
    Follows again text' notes :=
  ⟨fun n mem => sub.subset (h.mem n mem),
    fun a b pair => (h.order a b pair).imp_left fun p => p.trans sub⟩

/-- In a text all of whose places can be passed again, only the members count. -/
theorem of_mem (all : ∀ a ∈ text, ∀ b ∈ text, again a b) (mem : ∀ n ∈ notes, n ∈ text) :
    Follows again text notes := by
  refine ⟨mem, fun a b pair => .inr ?_⟩
  have sub := pair.subset
  exact all a (mem a (sub (by simp))) b (mem b (sub (by simp)))

end Follows

/-! ### Evaluations -/

namespace Eval

variable {State α β : Type}

/-- Writes something down behind what has been written down before. -/
def note (n : Note) : Eval (State × List Note) Unit :=
  ExceptT.mk fun (state, notes) => (.ok (), state, notes ++ [n])

/-- An evaluation that knows of no notes. -/
def aside (x : Eval State α) : Eval (State × List Note) α :=
  ExceptT.mk fun (state, notes) => ((x.outcome state).1, (x.outcome state).2, notes)

/-- Two evaluations come to the same, and the first writes down what follows a text. -/
def Notes (again : Note → Note → Prop) (text : List Note) (x : Eval (State × List Note) α)
    (y : Eval State α) : Prop :=
  ∀ state notes, ∃ more, Follows again text more ∧
    x.outcome (state, notes) = ((y.outcome state).1, (y.outcome state).2, notes ++ more)

namespace Notes

variable {again : Note → Note → Prop} {text text' : List Note}

theorem pure (a : α) : Notes again text (pure a) (pure a : Eval State α) :=
  fun _ _ => ⟨[], .nil, by simp⟩

theorem throw (halt : Halt) : Notes again text (throw halt) (throw halt : Eval State α) :=
  fun _ _ => ⟨[], .nil, by simp⟩

theorem aside (x : Eval State α) : Notes again text (Eval.aside x) x :=
  fun _ _ => ⟨[], .nil, by rw [List.append_nil]; rfl⟩

theorem mono {x : Eval (State × List Note) α} {y : Eval State α} (h : Notes again text x y)
    (sub : text.Sublist text') : Notes again text' x y := by
  intro state notes
  obtain ⟨more, follows, same⟩ := h state notes
  exact ⟨more, follows.mono sub, same⟩

theorem bind {x : Eval (State × List Note) α} {y : Eval State α}
    {f : α → Eval (State × List Note) β} {g : α → Eval State β} (hxy : Notes again text x y)
    (hfg : ∀ a, Notes again text' (f a) (g a)) :
    Notes again (text ++ text') (x >>= f) (y >>= g) := by
  intro state notes
  obtain ⟨more, follows, same⟩ := hxy state notes
  rcases hy : y.outcome state with ⟨halt | a, state'⟩
  · refine ⟨more, follows.mono (List.sublist_append_left _ _), ?_⟩
    rw [hy] at same
    rw [outcome_bind_error same, outcome_bind_error hy]
  · obtain ⟨others, follows', same'⟩ := hfg a state' (notes ++ more)
    refine ⟨more ++ others, follows.append follows', ?_⟩
    rw [hy] at same
    rw [outcome_bind_ok same, outcome_bind_ok hy, same', List.append_assoc]

/-- Nothing is written down behind the first part. -/
theorem bind_last {x : Eval (State × List Note) α} {y : Eval State α}
    {f : α → Eval (State × List Note) β} {g : α → Eval State β} (hxy : Notes again text x y)
    (hfg : ∀ a, Notes again [] (f a) (g a)) : Notes again text (x >>= f) (y >>= g) := by
  have h := hxy.bind hfg
  rwa [List.append_nil] at h

/-- Nothing is written down in the first part. -/
theorem bind_first {x : Eval (State × List Note) α} {y : Eval State α}
    {f : α → Eval (State × List Note) β} {g : α → Eval State β} (hxy : Notes again [] x y)
    (hfg : ∀ a, Notes again text (f a) (g a)) : Notes again text (x >>= f) (y >>= g) := by
  have h := hxy.bind hfg
  rwa [List.nil_append] at h

theorem note_bind (n : Note) {x : Eval (State × List Note) α} {y : Eval State α}
    (h : Notes again text x y) : Notes again (n :: text) (note n >>= fun _ => x) y := by
  intro state notes
  obtain ⟨more, follows, same⟩ := h state (notes ++ [n])
  refine ⟨n :: more, (Follows.singleton n).append follows, ?_⟩
  have noted : (note n).outcome (state, notes) = (.ok (), state, notes ++ [n]) := rfl
  rw [outcome_bind_ok noted, same, List.append_assoc, List.singleton_append]

theorem needed (a? : Option α) :
    Notes again text (Eval.needed a?) (Eval.needed a? : Eval State α) := by
  cases a? with
  | none => exact throw _
  | some a => exact pure a

theorem orTrap (a? : Option α) :
    Notes again text (Eval.orTrap a?) (Eval.orTrap a? : Eval State α) := by
  cases a? with
  | none => exact throw _
  | some a => exact pure a

theorem evaluate (op : BinaryOp) {lhs rhs : Eval (State × List Note) Word}
    {lhs' rhs' : Eval State Word} (hl : Notes again text lhs lhs')
    (hr : Notes again text' rhs rhs') :
    Notes again (text ++ text') (op.evaluate lhs rhs) (op.evaluate lhs' rhs') := by
  refine hl.bind fun a => ?_
  cases op.settled? a with
  | some value => exact pure value
  | none => exact hr.bind_last fun b => orTrap _

variable {Vars : Type}

theorem andThen (flow : Flow Vars) {rest : Vars → Eval (State × List Note) (Flow Vars)}
    {rest' : Vars → Eval State (Flow Vars)} (h : ∀ vars, Notes again text (rest vars) (rest' vars)) :
    Notes again text (flow.andThen rest) (flow.andThen rest') := by
  cases flow with
  | next vars => exact h vars
  | returned value => exact pure _

/-- The text of a loop is passed once in each round, so all its places can be passed again. -/
theorem loop (all : ∀ a ∈ text, ∀ b ∈ text, again a b)
    {test : Vars → Eval (State × List Note) Word} {test' : Vars → Eval State Word}
    {body : Vars → Eval (State × List Note) (Flow Vars)} {body' : Vars → Eval State (Flow Vars)}
    (ht : ∀ vars, Notes again text (test vars) (test' vars))
    (hb : ∀ vars, Notes again text (body vars) (body' vars)) (rounds : Nat) (vars : Vars) :
    Notes again text (Flow.loop test body rounds vars) (Flow.loop test' body' rounds vars) := by
  induction rounds generalizing vars with
  | zero => exact throw _
  | succ rounds ih =>
      have round : Notes again (text ++ (text ++ text))
          (Flow.loop test body (rounds + 1) vars) (Flow.loop test' body' (rounds + 1) vars) := by
        refine (ht vars).bind fun w => ?_
        split
        · exact pure _
        · exact (hb vars).bind fun flow => andThen flow ih
      intro state notes
      obtain ⟨more, follows, same⟩ := round state notes
      have mem : ∀ n ∈ more, n ∈ text := fun n h => by simpa using follows.mem n h
      exact ⟨more, .of_mem all mem, same⟩

theorem resultOf (owed : Bool) (flow : Flow Vars) :
    Notes again text (Lang.resultOf owed flow) (Lang.resultOf owed flow : Eval State _) := by
  unfold Lang.resultOf
  split <;> first | exact pure _ | exact throw _

end Notes

end Eval

end Workbench.Lang
