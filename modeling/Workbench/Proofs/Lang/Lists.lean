import Mathlib.Data.List.Basic

/-!
# Lists with positions and sorted lists

Passes over the members of a list that know where in the list they are, and what remains of the
order of a list when it is sorted.
-/

namespace Workbench.Lang

variable {α β : Type}

/-! ### Positions -/

/-- A pass over a list with its positions that does not ask for them. -/
theorem flatMap_zipIdx {l : List α} {g : α × Nat → List β} {h : α → List β}
    (same : ∀ x ∈ l.zipIdx, g x = h x.1) : l.zipIdx.flatMap g = l.flatMap h := by
  rw [List.flatMap_congr same, ← List.flatMap_map, List.zipIdx_map_fst]

theorem pairwise_zipIdx (l : List α) : l.zipIdx.Pairwise fun a b => a.2 < b.2 := by
  rw [← List.pairwise_map (f := Prod.snd) (R := (· < ·)), List.zipIdx_map_snd]
  exact List.pairwise_lt_range'

/-! ### Sorting -/

/-- Of two members of a list without repetitions exactly one stands before the other. -/
theorem pair_sublist_iff_not {l : List α} {a b : α} (nodup : l.Nodup) (ha : a ∈ l) (hb : b ∈ l)
    (ne : a ≠ b) : [b, a].Sublist l ↔ ¬[a, b].Sublist l := by
  induction l with
  | nil => cases ha
  | cons x rest ih =>
      obtain ⟨fresh, nodup⟩ := List.nodup_cons.1 nodup
      have behind {c d : α} (pair : [c, d].Sublist rest) : d ≠ x :=
        fun same => fresh (same ▸ pair.subset (by simp))
      rw [List.cons_sublist_cons', List.cons_sublist_cons', List.singleton_sublist,
        List.singleton_sublist]
      by_cases first : a = x
      · subst first
        have inRest : b ∈ rest := (List.mem_cons.1 hb).resolve_left ne.symm
        simpa [ne.symm, inRest] using fun pair => behind pair rfl
      by_cases second : b = x
      · subst second
        have inRest : a ∈ rest := (List.mem_cons.1 ha).resolve_left ne
        simpa [ne, inRest] using fun pair => behind pair rfl
      have inRest := (List.mem_cons.1 ha).resolve_left first
      simpa [first, second] using ih nodup inRest ((List.mem_cons.1 hb).resolve_left second)

/-- Sorting keeps a relation between those members that the order does not tell apart. -/
theorem pairwise_mergeSort_stable {le : α → α → Bool} {R : α → α → Prop} {l : List α}
    (trans : ∀ a b c, le a b → le b c → le a c) (total : ∀ a b, le a b || le b a)
    (nodup : l.Nodup) (related : l.Pairwise R) :
    (l.mergeSort le).Pairwise fun a b => le a b ∧ (le b a → R a b) := by
  have distinct : (l.mergeSort le).Nodup := (List.mergeSort_perm l le).nodup_iff.2 nodup
  refine List.pairwise_iff_forall_sublist.2 fun {a b} pair => ?_
  refine ⟨List.pairwise_iff_forall_sublist.1 (List.pairwise_mergeSort trans total l) pair,
    fun tie => ?_⟩
  have ha : a ∈ l.mergeSort le := pair.subset (by simp)
  have hb : b ∈ l.mergeSort le := pair.subset (by simp)
  have ne : a ≠ b := List.pairwise_iff_forall_sublist.1 distinct pair
  -- In the other order the two would have been kept in that one.
  have kept : [a, b].Sublist l := by
    rw [pair_sublist_iff_not nodup (List.mem_mergeSort.1 hb) (List.mem_mergeSort.1 ha) ne.symm]
    intro reversed
    exact (pair_sublist_iff_not distinct hb ha ne.symm).1 pair
      (List.pair_sublist_mergeSort trans total tie reversed)
  exact List.pairwise_iff_forall_sublist.1 related kept

end Workbench.Lang
