import Mathlib.Data.List.Nodup
import Workbench.Proofs.Files.Tree

/-!
# Walking a tree

A table without repeated places lists everything once. A walk then lists what is below a place, each
entry once and in strict order.
-/

namespace Workbench.Files.Disk

variable {d : Disk} {place top : Place} {node : Node}

/-- No place has two entries. -/
def IsTable (d : Disk) : Prop :=
  (d.entries.map (·.1)).Nodup

/-! ### Entries -/

theorem lookup?_eq_some_iff {entries : List (Place × Node)} (table : (entries.map (·.1)).Nodup) :
    lookup? place entries = some node ↔ (place, node) ∈ entries := by
  induction entries with
  | nil => simp [lookup?]
  | cons e rest ih =>
      obtain ⟨p, n⟩ := e
      rw [List.map_cons, List.nodup_cons] at table
      have ih := ih table.2
      by_cases here : p = place
      · subst here
        have absent : (p, node) ∉ rest := fun mem => table.1 (List.mem_map.2 ⟨_, mem, rfl⟩)
        simp [lookup?, absent, eq_comm]
      · have other : place ≠ p := fun same => here same.symm
        simp [lookup?, here, other, ih]

theorem IsTable.node?_eq_some_iff (table : d.IsTable) (proper : place ≠ []) :
    d.node? place = some node ↔ (place, node) ∈ d.entries := by
  rw [node?, if_neg proper]
  exact lookup?_eq_some_iff table

theorem keys_insertEntry (entries : List (Place × Node)) :
    (insertEntry place node entries).map (·.1) =
      if place ∈ entries.map (·.1) then entries.map (·.1) else entries.map (·.1) ++ [place] := by
  induction entries with
  | nil => simp [insertEntry]
  | cons e rest ih =>
      by_cases here : e.1 = place
      · simp [insertEntry, here]
      · have other : place ≠ e.1 := fun same => here same.symm
        simp only [insertEntry, here, if_false, List.map_cons, ih, List.mem_cons, other, false_or]
        split <;> rfl

theorem isTable_empty : empty.IsTable :=
  List.nodup_nil

/-- A changed table lists no place twice either. -/
theorem IsTable.put (table : d.IsTable) (place : Place) (node : Node) :
    (d.put place node).IsTable := by
  unfold IsTable Disk.put
  rw [keys_insertEntry]
  split
  · exact table
  · next absent =>
    rw [List.nodup_append]
    refine ⟨table, List.nodup_singleton _, fun p mem q single => ?_⟩
    rw [List.mem_singleton.1 single]
    exact fun same => absent (same ▸ mem)

theorem IsTable.erase (table : d.IsTable) (place : Place) : (d.erase place).IsTable :=
  List.Nodup.sublist (List.filter_sublist.map _) table

/-! ### What is below a place -/

theorem isBelow_iff {q : Place} : isBelow top q ↔ ∃ below, below ≠ [] ∧ q = top ++ below := by
  unfold isBelow
  rw [Bool.and_eq_true, List.isPrefixOf_iff_prefix, decide_eq_true_eq]
  constructor
  · rintro ⟨⟨below, rfl⟩, longer⟩
    refine ⟨below, fun none => ?_, rfl⟩
    subst none
    simp at longer
  · rintro ⟨below, some, rfl⟩
    have : 0 < below.length := List.length_pos_iff.2 some
    exact ⟨List.prefix_append top below, by simp; omega⟩

theorem IsTable.mem_below_iff (table : d.IsTable) :
    (place, node) ∈ d.below top ↔ place ≠ [] ∧ d.node? (top ++ place) = some node := by
  have listed (proper : place ≠ []) :
      d.node? (top ++ place) = some node ↔ (top ++ place, node) ∈ d.entries :=
    table.node?_eq_some_iff (by simp [proper])
  unfold below
  rw [List.mem_mergeSort, List.mem_map]
  constructor
  · rintro ⟨⟨q, n⟩, mem, same⟩
    obtain ⟨entry, under⟩ := List.mem_filter.1 mem
    obtain ⟨rest, some, rfl⟩ := isBelow_iff.1 under
    simp only [List.drop_left, Prod.mk.injEq] at same
    obtain ⟨rfl, rfl⟩ := same
    exact ⟨some, (listed some).2 entry⟩
  · rintro ⟨proper, found⟩
    refine ⟨(top ++ place, node), List.mem_filter.2 ⟨(listed proper).1 found, ?_⟩, by simp⟩
    exact isBelow_iff.2 ⟨place, proper, rfl⟩

theorem before_iff {a b : Place × Node} : before a b = true ↔ ¬ b.1 < a.1 := by
  rw [before, Bool.not_eq_true', decide_eq_false_iff_not]

/-- The places below a place, in strict order. -/
theorem IsTable.below_sorted (table : d.IsTable) (top : Place) :
    ((d.below top).map (·.1)).Pairwise (· < ·) := by
  have distinct : ((d.below top).map (·.1)).Nodup := by
    let under := d.entries.filter fun entry => isBelow top entry.1
    have keys : (under.map (·.1)).Nodup := List.Nodup.sublist (List.filter_sublist.map _) table
    have cut : ((under.map (·.1)).map (·.drop top.length)).Nodup := by
      have prefixed (p : Place) (hp : p ∈ under.map (·.1)) : ∃ rest, p = top ++ rest := by
        obtain ⟨entry, mem, rfl⟩ := List.mem_map.1 hp
        obtain ⟨rest, -, split⟩ := isBelow_iff.1 (List.mem_filter.1 mem).2
        exact ⟨rest, split⟩
      refine List.Nodup.map_on (fun p hp q hq same => ?_) keys
      obtain ⟨x, rfl⟩ := prefixed p hp
      obtain ⟨y, rfl⟩ := prefixed q hq
      rw [List.drop_left, List.drop_left] at same
      rw [same]
    have listed : ((under.map fun entry => (entry.1.drop top.length, entry.2)).map (·.1)).Nodup := by
      simpa [List.map_map, Function.comp_def] using cut
    exact ((List.mergeSort_perm _ before).map (·.1)).nodup_iff.2 listed
  have sorted : (d.below top).Pairwise fun a b => ¬ b.1 < a.1 := by
    have h := @List.pairwise_mergeSort _ before
      (fun a b c hab hbc => before_iff.2 (List.le_trans (before_iff.1 hab) (before_iff.1 hbc)))
      (fun a b => Bool.or_eq_true_iff.2 ((List.le_total a.1 b.1).imp before_iff.2 before_iff.2))
      ((d.entries.filter fun entry => isBelow top entry.1).map fun entry =>
        (entry.1.drop top.length, entry.2))
    exact h.imp before_iff.1
  rw [List.pairwise_map]
  refine sorted.imp₂ (fun a b le ne => ?_) (List.pairwise_map.1 distinct)
  by_contra above
  exact ne (List.le_antisymm le above)

/-! ### Ways -/

/-- A way through a tree ends at what stands there, whatever its steps. -/
theorem IsTree.node?_of_follow (tree : d.IsTree) {steps : List Step} {q r : Place} {n : Node}
    (start : d.node? q = some n) (follows : d.follow q n steps = .ok (r, node)) :
    d.node? r = some node := by
  fun_induction Disk.follow d q n steps with
  | case1 q n =>
      simp only [Except.ok.injEq, Prod.mk.injEq] at follows
      rw [← follows.1, ← follows.2, start]
  | case2 q n rest directory ih => exact ih start follows
  | case3 n directory rest => cases follows
  | case4 q n rest directory proper ih => exact ih (tree q n proper start) follows
  | case5 q n rest directory name n' found ih => exact ih found follows
  | case6 q n rest directory name missing => cases follows
  | case7 q n step rest file => cases follows

theorem IsTree.stat_of_locate (tree : d.IsTree) {path : String}
    (leads : d.locate path = .ok (place, node)) : d.stat place = .ok node := by
  unfold locate at leads
  split at leads
  · cases leads
  · exact tree.stat_eq_ok_iff.2 (tree.node?_of_follow (node?_nil d) leads)

end Workbench.Files.Disk
