import Workbench.Proofs.Loader.Logs

/-!
# Places that keep a slot

A place keeps its slot once it was written, and as long as there is a file. Loading and deleting
what is missing gives the slot back. A slot also stays behind, though nothing was ever written and
nothing is there, if the last operation that got to the place was refused for its base, for
something that is there, or by the disk.
-/

namespace Workbench.Session.Loader

open Files (Place)

variable {s : Store} {ops : List Operation} {e : Entry} {p : Place}

/-! ### The last operation at a place -/

/-- The last entry of a log whose operation has got to a place. -/
def lastAt (log : List Entry) (p : Place) : Option Entry :=
  (log.filter fun e => e.place? = some p).getLast?

/-- The last operation at a place failed in a way that can leave a slot behind. -/
def Lingers (log : List Entry) (p : Place) : Prop :=
  ∃ e failure, lastAt log p = some e ∧ e.answer = .error failure ∧ failure.lingers = true

theorem lastAt_append_of_ne (elsewhere : e.place? ≠ some p) (log : List Entry) :
    lastAt (log ++ [e]) p = lastAt log p := by
  simp [lastAt, elsewhere]

theorem lastAt_append_self (there : e.place? = some p) (log : List Entry) :
    lastAt (log ++ [e]) p = some e := by
  simp [lastAt, there]

theorem lingers_append_of_ne (elsewhere : e.place? ≠ some p) (log : List Entry) :
    Lingers (log ++ [e]) p ↔ Lingers log p := by
  rw [Lingers, lastAt_append_of_ne elsewhere, Lingers]

theorem lingers_append_self (there : e.place? = some p) (log : List Entry) :
    Lingers (log ++ [e]) p ↔ ∃ failure, e.answer = .error failure ∧ failure.lingers = true := by
  simp [Lingers, lastAt_append_self there]

/-! ### Slots that stay -/

/-- Why a place has a slot, and when it has one. -/
structure Tracked (log : List Entry) (s : Store) (p : Place) : Prop where
  matters : p ∈ s.tracked → 1 ≤ (s.slotAt p).version ∨ s.datedAt p ≠ none ∨ Lingers log p
  lingering : Lingers log p → p ∈ s.tracked

theorem Entry.tracked_of_ne {log : List Entry} (tree : e.before.volume.disk.IsTree)
    (elsewhere : e.place? ≠ some p) (h : Tracked log e.before p) :
    Tracked (log ++ [e]) e.after p := by
  obtain ⟨slot, file⟩ := after_of_ne tree elsewhere
  have mem : p ∈ e.after.tracked ↔ p ∈ e.before.tracked := by
    rw [Store.mem_tracked_iff, slot, ← Store.mem_tracked_iff]
  constructor
  · rw [mem, Store.slotAt_congr slot, file, lingers_append_of_ne elsewhere]
    exact h.matters
  · rw [mem, lingers_append_of_ne elsewhere]
    exact h.lingering

/-- An operation decides anew whether its place has a slot. -/
theorem Entry.tracked_self (tree : e.before.volume.disk.IsTree) (there : e.place? = some p)
    (log : List Entry) : Tracked (log ++ [e]) e.after p := by
  have lingers := lingers_append_self there log
  cases effect tree there with
  | loaded _ _ _ _ _ _ told becomes =>
      refine ⟨fun _ => .inr (.inl ?_), fun h => Store.mem_tracked_iff.2 ⟨_, becomes.slot⟩⟩
      simp [becomes.datedAt]
  | written _ _ _ _ _ _ becomes | removed _ _ _ _ becomes =>
      refine ⟨fun _ => .inl ?_, fun h => Store.mem_tracked_iff.2 ⟨_, becomes.slot⟩⟩
      rw [becomes.slotAt_some]
      exact Nat.le_add_left 1 _
  | forgotten _ told becomes =>
      constructor
      · intro mem
        obtain ⟨slot, has⟩ := Store.mem_tracked_iff.1 mem
        cases becomes.slot.symm.trans has
      · intro h
        obtain ⟨failure, told', lingering⟩ := lingers.1 h
        cases told.symm.trans told'
        cases lingering
  | refused failure told lasting becomes =>
      refine ⟨fun _ => ?_, fun h => Store.mem_tracked_iff.2 ⟨_, becomes.slot⟩⟩
      rw [becomes.slotAt_some, becomes.datedAt]
      by_cases fresh : (e.before.slotAt p).version = 0
      · by_cases none : e.before.datedAt p = none
        · exact .inr (.inr (lingers.2 ⟨failure, told, lasting fresh none⟩))
        · exact .inr (.inl none)
      · exact .inl (Nat.one_le_iff_ne_zero.2 fresh)
  | brokenOff _ _ _ _ _ _ _ _ _ _ becomes =>
      refine ⟨fun _ => .inr (.inl ?_), fun h => Store.mem_tracked_iff.2 ⟨_, becomes.slot⟩⟩
      simp [becomes.datedAt]

/-- A loader keeps the slots of places that were written and of places with a file. Any other slot
was left behind by the last operation at its place. -/
theorem tracked_of_log (s : Store) (fresh : s.slots = []) (tree : s.volume.disk.IsTree)
    (ops : List Operation) (p : Place) : Tracked (s.log ops) (s.behind ops) p := by
  have start : s.volume.disk.IsTree ∧ Tracked [] s p := by
    refine ⟨tree, ⟨fun mem => ?_, ?_⟩⟩
    · simp [Store.tracked, fresh] at mem
    · rintro ⟨e, failure, last, -⟩
      cases last
  exact (Store.log_induction (P := fun log s => s.volume.disk.IsTree ∧ Tracked log s p)
    (fun log e h => ⟨Entry.tree_after h.1, by
      by_cases there : e.place? = some p
      · exact Entry.tracked_self h.1 there log
      · exact Entry.tracked_of_ne h.1 there h.2⟩) start ops).2

/-! ### A save without a file -/

/-- A store without files. -/
def bareStore : Store :=
  ⟨"", 64, "build", [], .ofDisk .empty 9⟩

theorem tracked_of_log_bare :
    bareStore.slots = [] ∧ bareStore.volume.disk.IsTree ∧
      Tracked (bareStore.log [.create "a", .load "b"])
        (bareStore.behind [.create "a", .load "b"]) ["a"] ∧
      (bareStore.behind [.create "a", .load "b"]).tracked = [["a"]] :=
  ⟨rfl, Files.Disk.isTree_empty, tracked_of_log bareStore rfl Files.Disk.isTree_empty _ _,
    by decide +kernel⟩

/-- A save that is refused for its base leaves a slot behind, though its place was never written and
nothing is there. -/
theorem refused_save_is_tracked :
    let s := bareStore.behind [.save "a" "1" (some 5)]
    (bareStore.log [.save "a" "1" (some 5)]).map (·.answer) = [.error (.conflict "a" 5 0)] ∧
      s.tracked = [["a"]] ∧ (s.slotAt ["a"]).version = 0 ∧ s.datedAt ["a"] = none := by
  refine ⟨?_, ?_, ?_, ?_⟩
  all_goals decide +kernel

end Workbench.Session.Loader
