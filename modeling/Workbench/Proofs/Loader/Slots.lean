import Workbench.Proofs.Loader.Sharing

/-!
# Slots and tasks

Whatever is on the disk and whatever calls fail, a slot in the table is one place's, the tasks that
use it are at that place, one task at most has it locked, and its version is the number of writes to
the place that were counted. A step keeps this if the plan of its task counts one write more where
it stores the slot, and gives back only a slot without writes.
-/

namespace Workbench.Session.Loader

open Files (Place Disk Volume)

/-- The plan counts right in its next step. -/
def Plan.Tallies (version : Nat) : Plan → Prop
  | commit slot _ => slot.version = version + 1
  | forget _ => version = 0
  | _ => True

namespace Shelf

variable {ops : Nat → Operation} {trace : List Step} {w w' : Shelf} {s : Step} {j k : Nat}
  {place : Place} {c : Nat} {plan : Plan}

/-! ### Tasks at work -/

theorem uses_of_inside (inside : w.phase k = .inside place c plan) (busy : plan.isDone = false) :
    (w.phase k).Uses place c := by
  rw [inside]
  exact ⟨rfl, rfl, busy⟩

theorem uses_of_waiting (waiting : w.phase k = .waiting place c) : (w.phase k).Uses place c := by
  rw [waiting]
  exact ⟨rfl, rfl⟩

theorem worksAt_of_inside (inside : w.phase k = .inside place c plan)
    (busy : plan.isDone = false) : (w.phase k).WorksAt place := by
  rw [inside]
  exact ⟨rfl, busy⟩

theorem locked?_of_inside (inside : w.phase k = .inside place c plan) :
    (w.phase k).locked? = some c := by
  rw [inside]
  rfl

theorem exists_inside_of_worksAt {phase : Phase} (works : phase.WorksAt place) :
    ∃ c plan, phase = .inside place c plan ∧ plan.isDone = false := by
  cases phase with
  | inside p c plan =>
      obtain ⟨rfl, busy⟩ := works
      exact ⟨c, plan, rfl, busy⟩
  | _ => exact works.elim

theorem cell?_of_uses {phase : Phase} (uses : phase.Uses place c) : phase.cell? = some c := by
  cases phase with
  | waiting p c' => exact congrArg some uses.2
  | inside p c' plan => exact congrArg some uses.2.1
  | _ => exact uses.elim

/-! ### The files of the tasks -/

/-- What ties the slots and the tasks together, whatever is on the disk. -/
structure Filed (ops : Nat → Operation) (trace : List Step) (w : Shelf) : Prop where
  tabled : Tabled w
  placed : ∀ k p c, (w.phase k).Uses p c → w.table p = some c ∧ (ops k).place? = some p
  alone : ∀ j k c, (w.phase j).locked? = some c → (w.phase k).locked? = some c → j = k
  counted : ∀ p c slot, w.table p = some c → w.slots[c]? = some slot →
    slot.version = (mutations ops p trace).length
  unwritten : ∀ p, w.table p = none → mutations ops p trace = []

theorem filed_opened (shown : Place → String) (limit : Nat) (volume : Volume) :
    Filed ops [] (opened shown limit volume) where
  tabled := ⟨by simp [opened], by simp [opened]⟩
  placed := by simp [opened, Phase.Uses]
  alone := by simp [opened, Phase.locked?]
  counted := by simp [opened]
  unwritten := by simp [mutations]

section

variable (filed : Filed ops trace w)

include filed

theorem Filed.slot (entry : w.table place = some c) : ∃ slot, w.slots[c]? = some slot :=
  ⟨_, List.getElem?_eq_getElem (filed.tabled.range place c entry)⟩

/-- The slot that a task uses is the one of its place. -/
theorem Filed.cell_eq {d : Nat} (uses : (w.phase k).Uses place c) (entry : w.table place = some d) :
    c = d :=
  Option.some.inj ((filed.placed k place c uses).1.symm.trans entry)

theorem Filed.place?_of_worksAt (works : (w.phase k).WorksAt place) :
    (ops k).place? = some place := by
  obtain ⟨c, plan, inside, busy⟩ := exists_inside_of_worksAt works
  exact (filed.placed k place c (uses_of_inside inside busy)).2

/-- No two tasks are at work at one place. -/
theorem Filed.sole (works : (w.phase j).WorksAt place) (works' : (w.phase k).WorksAt place) :
    j = k := by
  obtain ⟨c, plan, inside, busy⟩ := exists_inside_of_worksAt works
  obtain ⟨d, plan', inside', busy'⟩ := exists_inside_of_worksAt works'
  have entry' := (filed.placed k place d (uses_of_inside inside' busy')).1
  have same := filed.cell_eq (uses_of_inside inside busy) entry'
  subst same
  exact filed.alone j k c (locked?_of_inside inside) (locked?_of_inside inside')

theorem Filed.elsewhere (other : j ≠ k) (works : (w.phase j).WorksAt place) :
    ¬ (w.phase k).WorksAt place :=
  fun works' => other (filed.sole works works')

/-! ### Changes that keep the files -/

/-- Nothing depends on the volume. -/
theorem Filed.onVolume (v : Volume) : Filed ops trace { w with volume := v } where
  tabled := ⟨filed.tabled.range, filed.tabled.apart⟩
  placed := filed.placed
  alone := filed.alone
  counted := filed.counted
  unwritten := filed.unwritten

/-- A step that counts no write keeps the counts. -/
theorem Filed.quiet (quiet : s.move ≠ .commit) : Filed ops (trace ++ [s]) w where
  tabled := filed.tabled
  placed := filed.placed
  alone := filed.alone
  counted p c slot entry at_ := by
    rw [mutations_append_of_ne quiet]
    exact filed.counted p c slot entry at_
  unwritten p none := by
    rw [mutations_append_of_ne quiet]
    exact filed.unwritten p none

/-- A task goes on, and nothing else changes. -/
theorem Filed.goto {ph : Phase}
    (lock : ∀ c, ph.locked? = some c → ∀ j, j ≠ k → (w.phase j).locked? ≠ some c)
    (uses : ∀ p c, ph.Uses p c → w.table p = some c ∧ (ops k).place? = some p) :
    Filed ops trace (w.goto k ph) where
  tabled := ⟨filed.tabled.range, filed.tabled.apart⟩
  placed j p c h := by
    by_cases own : j = k
    · subst own
      rw [phase_goto_self] at h
      exact uses p c h
    · rw [phase_goto_of_ne w k ph own] at h
      exact filed.placed j p c h
  alone i j c hi hj := by
    by_cases own : i = k
    · subst own
      rw [phase_goto_self] at hi
      by_cases own' : j = i
      · exact own'.symm
      · rw [phase_goto_of_ne w i ph own'] at hj
        exact absurd hj (lock c hi j own')
    · rw [phase_goto_of_ne w k ph own] at hi
      by_cases own' : j = k
      · subst own'
        rw [phase_goto_self] at hj
        exact absurd hi (lock c hj i own)
      · rw [phase_goto_of_ne w k ph own'] at hj
        exact filed.alone i j c hi hj
  counted := filed.counted
  unwritten := filed.unwritten

/-- A task goes on to a point at which it has no slot locked and none in use. -/
theorem Filed.goto_idle {ph : Phase} (free : ph.locked? = none) (unused : ∀ p c, ¬ ph.Uses p c) :
    Filed ops trace (w.goto k ph) := by
  refine filed.goto ?_ ?_
  · intro c locked
    rw [free] at locked
    cases locked
  · exact fun p c uses => absurd uses (unused p c)

/-- A task waits for the slot of its place. -/
theorem Filed.wait (entry : w.table place = some c) (owns : (ops k).place? = some place) :
    Filed ops trace (w.goto k (.waiting place c)) := by
  refine filed.goto ?_ ?_
  · rintro c ⟨⟩
  · rintro p c ⟨rfl, rfl⟩
    exact ⟨entry, owns⟩

/-- A task locks the slot of its place. -/
theorem Filed.lock (waiting : w.phase k = .waiting place c)
    (free : ∀ j, (w.phase j).locked? ≠ some c) (plan : Plan) :
    Filed ops trace (w.goto k (.inside place c plan)) := by
  refine filed.goto ?_ ?_
  · rintro c' ⟨⟩ j _
    exact free j
  · rintro p c' ⟨rfl, rfl, -⟩
    exact filed.placed k place c (uses_of_waiting waiting)

/-- A task goes on with the slot that it has locked. -/
theorem Filed.onward (inside : w.phase k = .inside place c plan) (busy : plan.isDone = false)
    (next : Plan) : Filed ops trace (w.goto k (.inside place c next)) := by
  refine filed.goto ?_ ?_
  · rintro c' ⟨⟩ j other locked
    exact other (filed.alone j k c locked (locked?_of_inside inside))
  · rintro p c' ⟨rfl, rfl, -⟩
    exact filed.placed k place c (uses_of_inside inside busy)

/-- A new slot has counted no write. -/
theorem Filed.making (none : w.table place = none) : Filed ops trace (w.making place) where
  tabled := filed.tabled.making
  placed k p c uses := by
    obtain ⟨entry, owns⟩ := filed.placed k p c uses
    have other : p ≠ place := by
      rintro rfl
      rw [none] at entry
      cases entry
    exact ⟨(table_setEntry_of_ne w place _ other).trans entry, owns⟩
  alone := filed.alone
  counted p c slot entry at_ := by
    rcases table_making entry with ⟨rfl, rfl⟩ | ⟨-, entry⟩
    · rw [getElem?_making_self, Option.some.injEq] at at_
      rw [← at_, filed.unwritten p none]
      rfl
    · rw [filed.tabled.getElem?_making entry] at at_
      exact filed.counted p c slot entry at_
  unwritten p none' := by
    by_cases here : p = place
    · exact here ▸ filed.unwritten place none
    · exact filed.unwritten p ((table_setEntry_of_ne w place _ here).symm.trans none')

/-- A slot that has counted no write can be dropped if nobody uses it. -/
theorem Filed.dropping (fresh : mutations ops place trace = [])
    (unused : ∀ k c, ¬ (w.phase k).Uses place c) : Filed ops trace (w.setEntry place none) where
  tabled := filed.tabled.dropping
  placed k p c uses := by
    obtain ⟨entry, owns⟩ := filed.placed k p c uses
    have other : p ≠ place := by
      rintro rfl
      exact unused k c uses
    exact ⟨(table_setEntry_of_ne w place none other).trans entry, owns⟩
  alone := filed.alone
  counted p c slot entry at_ := filed.counted p c slot (table_setEntry_none entry).2 at_
  unwritten p none := by
    by_cases here : p = place
    · exact here ▸ fresh
    · exact filed.unwritten p ((table_setEntry_of_ne w place _ here).symm.trans none)

/-- A slot that is given back has counted no write, and nobody waits for it. -/
theorem Filed.forget {failure : Failure} (inside : w.phase k = .inside place c (.forget failure))
    (unshared : w.Unshared k place c) (fresh : ∀ slot, w.slots[c]? = some slot → slot.version = 0) :
    Filed ops trace
      ((w.setEntry place none).goto k (.inside place c (.done (.error failure)))) := by
  obtain ⟨entry, -, nobody⟩ := unshared
  obtain ⟨slot, at_⟩ := filed.slot entry
  refine (filed.onward inside rfl (.done (.error failure))).dropping ?_ ?_
  · rw [← List.length_eq_zero_iff, ← filed.counted place c slot entry at_]
    exact fresh slot at_
  · intro j c' uses
    by_cases own : j = k
    · subst own
      rw [phase_goto_self] at uses
      cases uses.2.2
    · rw [phase_goto_of_ne w k _ own] at uses
      have same := filed.cell_eq uses entry
      subst same
      exact nobody j own (cell?_of_uses uses)

/-- A slot is stored with one write more. -/
theorem Filed.storing (entry : w.table place = some c) (owns : (ops k).place? = some place)
    {slot' : Slot} (more : ∀ slot, w.slots[c]? = some slot → slot'.version = slot.version + 1) :
    Filed ops (trace ++ [⟨k, .commit⟩]) { w with slots := w.slots.set c slot' } where
  tabled := ⟨by simpa using filed.tabled.range, filed.tabled.apart⟩
  placed := filed.placed
  alone := filed.alone
  counted p c' slot entry' at_ := by
    by_cases here : p = place
    · subst here
      rw [entry, Option.some.injEq] at entry'
      subst entry'
      obtain ⟨old, found⟩ := filed.slot entry
      rw [List.getElem?_set_self (filed.tabled.range p c entry), Option.some.injEq] at at_
      rw [← at_, more old found, filed.counted p c old entry found,
        mutations_append_commit owns, List.length_append]
      rfl
    · rw [mutations_append_elsewhere (by rw [owns]; simpa using Ne.symm here)]
      exact filed.counted p c' slot entry' (filed.tabled.getElem?_set entry entry' here slot' ▸ at_)
  unwritten p none := by
    have other : p ≠ place := by
      rintro rfl
      cases entry.symm.trans none
    rw [mutations_append_elsewhere (by rw [owns]; simpa using Ne.symm other)]
    exact filed.unwritten p none

end

/-! ### Steps -/

theorem confine?_ne_nil {path : String} (h : Files.confine? path = some place) : place ≠ [] := by
  rintro rfl
  unfold Files.confine? at h
  split at h
  · cases h
  · cases h
  · next other _ =>
      cases h
      exact other rfl

theorem place?_of_accept {o : Operation} {limit : Nat} (h : o.accept limit = .ok place) :
    o.place? = some place := by
  unfold Operation.accept at h
  split at h
  · cases h
  · next there =>
      dsimp only at h
      split at h
      · cases h
      · cases h
        exact there
  · next _ there =>
      cases h
      exact there

theorem phase_of_takes (takes : Takes ops w s w') (other : k ≠ s.task) :
    w'.phase k = w.phase k := by
  cases takes with
  | _ => exact phase_goto_of_ne _ _ _ other

section

variable (filed : Filed ops trace w) (takes : Takes ops w s w')

include filed takes

/-- A write is counted for the place that the task of the step works at. -/
theorem Filed.mutations_of_takes (idle : ¬ (w.phase s.task).WorksAt place) :
    mutations ops place (trace ++ [s]) = mutations ops place trace := by
  cases takes with
  | @commit k p c slot file inside =>
      refine mutations_append_elsewhere ?_ trace
      rw [(filed.placed k p c (uses_of_inside inside rfl)).2, ne_eq, Option.some.injEq]
      rintro rfl
      exact idle (worksAt_of_inside inside rfl)
  | _ => exact mutations_append_of_ne (by simp) place trace

/-- The slot of a place stays as it is while the task of the step works elsewhere. -/
theorem Filed.slot_of_takes (idle : ¬ (w.phase s.task).WorksAt place)
    (entry : w.table place = some c) : w'.slots[c]? = w.slots[c]? := by
  cases takes with
  | make _ _ _ =>
      rw [slots_goto]
      exact filed.tabled.getElem?_making entry
  | @commit k p c' slot file inside =>
      have own := (filed.placed k p c' (uses_of_inside inside rfl)).1
      refine filed.tabled.getElem?_set own entry ?_ _
      rintro rfl
      exact idle (worksAt_of_inside inside rfl)
  | _ => rfl

theorem Filed.step (tallies : ∀ p c plan slot, w.phase s.task = .inside p c plan →
    plan.isDone = false → w.slots[c]? = some slot → plan.Tallies slot.version) :
    Filed ops (trace ++ [s]) w' := by
  cases takes with
  | refuse called _ => exact Filed.quiet (filed.goto_idle rfl fun _ _ h => h) nofun
  | find called accepts entry => exact (filed.wait entry (place?_of_accept accepts)).quiet nofun
  | @make k place called accepts none =>
      exact ((filed.making none).wait (table_making_self w place)
        (place?_of_accept accepts)).quiet nofun
  | lock waiting free at_ => exact (filed.lock waiting free _).quiet nofun
  | stat inside => exact ((filed.onward inside rfl _).onVolume _).quiet nofun
  | read inside => exact ((filed.onward inside rfl _).onVolume _).quiet nofun
  | change inside => exact ((filed.onward inside rfl _).onVolume _).quiet nofun
  | @commit k place c slot' file inside =>
      obtain ⟨entry, owns⟩ := filed.placed k place c (uses_of_inside inside rfl)
      exact (filed.onward inside rfl _).storing entry owns fun slot at_ =>
        tallies place c _ slot inside rfl at_
  | @forget k place c failure inside unshared =>
      exact (filed.forget inside unshared fun slot at_ =>
        tallies place c _ slot inside rfl at_).quiet nofun
  | keep inside _ => exact (filed.onward inside rfl _).quiet nofun
  | unlock inside => exact Filed.quiet (filed.goto_idle rfl fun _ _ h => h) nofun
  | release leaving => exact Filed.quiet (filed.goto_idle rfl fun _ _ h => h) nofun

end

end Shelf

end Workbench.Session.Loader
