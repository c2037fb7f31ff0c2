import Workbench.Proofs.Loader.Locking

/-!
# Operations one after another

A task that nobody comes in between does what its operation does on a store, with the same answer
and the same disk and versions after it. So operations one after another are one way in which the
tasks can go on.
-/

namespace Workbench.Session.Loader

open Files (Place)

namespace Slot

variable {place : Place}

theorem find_drop_self (slots : List (Place × Slot)) :
    Slot.find place (Slot.drop place slots) = .fresh := by
  induction slots with
  | nil => rfl
  | cons e rest ih =>
      by_cases h : e.1 = place
      · simpa [Slot.drop, h] using ih
      · simpa [Slot.drop, Slot.find, h] using ih

theorem find_drop_of_ne {q : Place} (other : q ≠ place) (slots : List (Place × Slot)) :
    Slot.find q (Slot.drop place slots) = Slot.find q slots := by
  induction slots with
  | nil => rfl
  | cons e rest ih =>
      by_cases h : e.1 = place
      · simpa [Slot.drop, Slot.find, h, other.symm] using ih
      · by_cases ho : e.1 = q <;> simp_all [Slot.drop, Slot.find]

end Slot

namespace Shelf

variable {ops : Nat → Operation} {w w' : Shelf} {k : Nat} {place : Place} {c : Nat} {store : Store}

/-- The slot of a place; a fresh one without an entry. -/
def slotAt (w : Shelf) (place : Place) : Slot :=
  match w.table place with
  | some c => (w.slots[c]?).getD .fresh
  | none => .fresh

/-- A store has the files and the slots of a shelf. -/
structure Holds (store : Store) (w : Shelf) : Prop where
  volume : w.volume = store.volume
  shown : w.shown = store.shown
  limit : w.limit = store.maxFileSize
  slots : ∀ p, w.slotAt p = Slot.find p store.slots
  tabled : Tabled w

theorem holds_opened (fresh : store.slots = []) :
    Holds store (opened store.shown store.maxFileSize store.volume) where
  volume := rfl
  shown := rfl
  limit := rfl
  slots p := by simp [slotAt, opened, fresh, Slot.find]
  tabled := ⟨by simp [opened], by simp [opened]⟩

theorem Holds.goto (h : Holds store w) (k : Nat) (ph : Phase) : Holds store (w.goto k ph) where
  volume := h.volume
  shown := h.shown
  limit := h.limit
  slots := h.slots
  tabled := ⟨h.tabled.range, h.tabled.apart⟩

theorem Holds.withVolume (h : Holds store w) (v : Files.Volume) :
    Holds { store with volume := v } { w with volume := v } where
  volume := rfl
  shown := h.shown
  limit := h.limit
  slots := h.slots
  tabled := ⟨h.tabled.range, h.tabled.apart⟩

theorem Holds.set (h : Holds store w) (entry : w.table place = some c) (slot : Slot) :
    Holds { store with slots := Slot.set place slot store.slots }
      { w with slots := w.slots.set c slot } where
  volume := h.volume
  shown := h.shown
  limit := h.limit
  slots p := by
    by_cases here : p = place
    · subst here
      rw [Slot.find_set_self]
      simp [slotAt, entry, List.getElem?_set_self (h.tabled.range p c entry)]
    · rw [Slot.find_set_of_ne here, ← h.slots p]
      unfold slotAt
      cases entry' : w.table p with
      | none => rfl
      | some c' => simp only [h.tabled.getElem?_set entry entry' here slot]
  tabled := ⟨by simpa using h.tabled.range, h.tabled.apart⟩

theorem Holds.dropping (h : Holds store w) :
    Holds { store with slots := Slot.drop place store.slots } (w.setEntry place none) where
  volume := h.volume
  shown := h.shown
  limit := h.limit
  slots p := by
    by_cases here : p = place
    · subst here
      rw [Slot.find_drop_self]
      simp [slotAt]
    · rw [Slot.find_drop_of_ne here, ← h.slots p]
      simp [slotAt, setEntry, here]
  tabled := h.tabled.dropping

/-- A new slot is what was there without an entry. -/
theorem Holds.making (h : Holds store w) (none : w.table place = none) :
    Holds store (w.making place) where
  volume := h.volume
  shown := h.shown
  limit := h.limit
  slots p := by
    rw [← h.slots p]
    by_cases here : p = place
    · subst here
      simp only [slotAt, table_making_self, getElem?_making_self, none]
      rfl
    · have same : (w.making place).table p = w.table p := table_setEntry_of_ne w place _ here
      unfold slotAt
      rw [same]
      cases entry : w.table p with
      | none => rfl
      | some c => simp only [h.tabled.getElem?_making entry]
  tabled := h.tabled.making

/-- Looking a slot up changes nothing that a store knows of. -/
theorem Holds.takeSlot (h : Holds store w) (place : Place) :
    Holds { store with slots := Slot.set place (Slot.find place store.slots) store.slots } w where
  volume := h.volume
  shown := h.shown
  limit := h.limit
  slots p := by
    rw [h.slots p]
    by_cases here : p = place
    · subst here
      rw [Slot.find_set_self]
    · rw [Slot.find_set_of_ne here]
  tabled := h.tabled

/-! ### Tasks that nobody comes in between -/

/-- No other task refers to a slot. -/
def Alone (w : Shelf) (k : Nat) : Prop :=
  ∀ j, j ≠ k → (w.phase j).cell? = none

/-- The steps of a task alone lead to a point with an answer, and a store has what they leave. -/
def Ends (ops : Nat → Operation) (w : Shelf) (k : Nat) (ph : Except Failure Reply → Phase)
    (result : Except Failure Reply × Store) : Prop :=
  ∃ steps w', Leads ops w steps w' ∧ (∀ s ∈ steps, s.task = k) ∧ w'.phase k = ph result.1 ∧
    Holds result.2 w' ∧ ∀ j, j ≠ k → w'.phase j = w.phase j

variable {ph : Except Failure Reply → Phase} {result : Except Failure Reply × Store}

theorem Ends.head {move : Move} {w₁ : Shelf} (first : Takes ops w ⟨k, move⟩ w₁)
    (same : ∀ j, j ≠ k → w₁.phase j = w.phase j) (rest : Ends ops w₁ k ph result) :
    Ends ops w k ph result := by
  obtain ⟨steps, w', leads, own, ends, holds, others⟩ := rest
  exact ⟨⟨k, move⟩ :: steps, w', Leads.trans (.snoc .refl first) leads, by simpa using own, ends,
    holds, fun j other => (others j other).trans (same j other)⟩

theorem Ends.last {move : Move} (h : Ends ops w k ph result) (ph' : Except Failure Reply → Phase)
    (takes : ∀ w₁ : Shelf, w₁.phase k = ph result.1 →
      Takes ops w₁ ⟨k, move⟩ (w₁.goto k (ph' result.1))) :
    Ends ops w k ph' result := by
  obtain ⟨steps, w', leads, own, ends, holds, others⟩ := h
  refine ⟨steps ++ [⟨k, move⟩], _, leads.snoc (takes w' ends), ?_, phase_goto_self w' k _,
    holds.goto k _, fun j other => (phase_goto_of_ne w' k _ other).trans (others j other)⟩
  intro s mem
  rcases List.mem_append.1 mem with mem | mem
  · exact own s mem
  · rw [List.mem_singleton.1 mem]

/-- A call is made, and the rest of the plan is carried out after it. -/
theorem Ends.call (holds : Holds store w) (alone : w.Alone k) (entry : w.table place = some c)
    {plan : Plan} {v : Files.Volume}
    (takes : Takes ops w ⟨k, .call⟩ { w.goto k (.inside place c plan) with volume := v })
    (rest : ∀ {w : Shelf} {store : Store}, Holds store w → w.Alone k →
      w.phase k = .inside place c plan → w.table place = some c →
      Ends ops w k (fun a => .inside place c (.done a)) (plan.run place store)) :
    Ends ops w k (fun a => .inside place c (.done a))
      (plan.run place { store with volume := v }) := by
  have others : ∀ j, j ≠ k → (w.goto k (.inside place c plan)).phase j = w.phase j :=
    fun j other => phase_goto_of_ne w k _ other
  refine Ends.head takes others (rest ((holds.goto k _).withVolume v) ?_ ?_ entry)
  · exact fun j other => (congrArg Phase.cell? (others j other)).trans (alone j other)
  · exact phase_goto_self w k _

/-- A plan is carried out step by step as in one go. -/
theorem ends_run (plan : Plan) {w : Shelf} {store : Store} (holds : Holds store w)
    (alone : w.Alone k) (inside : w.phase k = .inside place c plan)
    (entry : w.table place = some c) :
    Ends ops w k (fun a => .inside place c (.done a)) (plan.run place store) := by
  induction plan generalizing w store with
  | done answer => exact ⟨[], w, .refl, by simp, inside, holds, fun _ _ => rfl⟩
  | stat next ih =>
      rw [Plan.run, ← holds.volume]
      exact Ends.call holds alone entry (.stat inside) (ih _)
  | read next ih =>
      rw [Plan.run, ← holds.volume]
      exact Ends.call holds alone entry (.read inside) (ih _)
  | change act next ih =>
      rw [Plan.run, ← holds.volume]
      exact Ends.call holds alone entry (.change inside) (ih _)
  | commit slot file =>
      exact ⟨_, _, .snoc .refl (.commit inside), by simp, phase_goto_self w k _,
        (holds.goto k _).set entry slot, fun j other => phase_goto_of_ne w k _ other⟩
  | forget failure =>
      have unshared : w.Unshared k place c := by
        refine ⟨entry, fun q other entry' => other (holds.tabled.apart q place c entry' entry), ?_⟩
        intro j other
        simp [alone j other]
      exact ⟨_, _, .snoc .refl (.forget inside unshared), by simp, phase_goto_self _ k _,
        holds.dropping.goto k _, fun j other => phase_goto_of_ne _ k _ other⟩

/-- A task that looks its slot up finds the one of the store. -/
theorem exists_waiting (holds : Holds store w) (called : w.phase k = .called)
    (accepts : (ops k).accept w.limit = .ok place) : ∃ w₁ c, Takes ops w ⟨k, .lookup⟩ w₁ ∧
      w₁.phase k = .waiting place c ∧ w₁.table place = some c ∧
      w₁.slots[c]? = some (Slot.find place store.slots) ∧ Holds store w₁ ∧
      ∀ j, j ≠ k → w₁.phase j = w.phase j := by
  cases entry : w.table place with
  | some c =>
      refine ⟨_, c, .find called accepts entry, phase_goto_self w k _, entry, ?_, holds.goto k _,
        fun j other => phase_goto_of_ne w k _ other⟩
      rw [← holds.slots place, slotAt, entry]
      simp [List.getElem?_eq_getElem (holds.tabled.range place c entry)]
  | none =>
      refine ⟨_, w.slots.length, .make called accepts entry, phase_goto_self _ k _, ?_, ?_,
        (holds.making entry).goto k _, fun j other => phase_goto_of_ne _ k _ other⟩
      · exact table_making_self w place
      · rw [← holds.slots place, slotAt, entry]
        exact getElem?_making_self w place

/-- A task that nobody comes in between does what its operation does on a store. -/
theorem ends_perform (holds : Holds store w) (alone : w.Alone k) (called : w.phase k = .called) :
    Ends ops w k .returned ((ops k).perform store) := by
  unfold Operation.perform
  rw [← congrArg ((ops k).accept ·) holds.limit]
  cases accepts : (ops k).accept w.limit with
  | error failure =>
      exact ⟨_, _, .snoc .refl (.refuse called accepts), by simp, phase_goto_self w k _,
        holds.goto k _, fun j other => phase_goto_of_ne w k _ other⟩
  | ok place =>
      obtain ⟨w₁, c, looks, waiting, entry, at_, holds₁, same₁⟩ :=
        exists_waiting holds called accepts
      have free : ∀ j, (w₁.phase j).locked? ≠ some c := by
        intro j
        by_cases own : j = k
        · subst own
          simp [waiting, Phase.locked?]
        · have := alone j own
          rw [same₁ j own]
          cases h : w.phase j <;> simp_all [Phase.cell?, Phase.locked?]
      have locks : Takes ops w₁ ⟨k, .lock⟩ _ := .lock waiting free at_
      rw [holds₁.shown, holds₁.limit] at locks
      have others : ∀ p j, j ≠ k → (w₁.goto k p).phase j = w.phase j :=
        fun p j other => (phase_goto_of_ne w₁ k p other).trans (same₁ j other)
      have ends : Ends ops _ k _ _ := ends_run
        ((ops k).plan store.shown store.maxFileSize place (Slot.find place store.slots))
        ((holds₁.takeSlot place).goto k _)
        (fun j other => (congrArg Phase.cell? (others _ j other)).trans (alone j other))
        (phase_goto_self w₁ k _) entry
      have locked := ends.head locks fun j other => phase_goto_of_ne w₁ k _ other
      have looked := locked.head looks same₁
      have unlocked := looked.last (.leaving c) fun w inside => .unlock inside
      exact unlocked.last .returned fun w leaving => .release leaving

end Shelf

end Workbench.Session.Loader
