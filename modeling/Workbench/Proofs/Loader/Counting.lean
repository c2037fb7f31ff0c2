import Workbench.Proofs.Loader.Slots

/-!
# What slots count

Whatever calls fail, a slot is one place's, one task at most has it locked, and its version is the
number of writes to the place that were counted. None of this depends on what is on the disk: a plan
that stores a slot has counted one write more, whatever its calls were answered.
-/

namespace Workbench.Session.Loader

open Files (Fault Place Disk Volume)

/-! ### Plans -/

/-- The plan counts one write if it stores the slot, and gives back only a slot without writes. -/
def Plan.Counts (version : Nat) : Plan → Prop
  | done _ => True
  | stat next => ∀ found, (next found).Counts version
  | read next => ∀ text, (next text).Counts version
  | change _ next => ∀ answer, (next answer).Counts version
  | commit slot _ => slot.version = version + 1
  | forget _ => version = 0

section

variable {shown : Place → String} {limit : Nat} {place : Place} {slot : Slot} {version : Nat}

theorem counts_missing (path : String) (slot : Slot) :
    (Plan.missing path slot).Counts slot.version := by
  unfold Plan.missing
  split
  · next fresh => exact fresh
  · trivial

theorem counts_write {at_ : Place} {act : Disk → Nat → Except Fault Disk} {next : Plan}
    (rest : next.Counts version) : (Plan.write shown at_ act next).Counts version := by
  intro answer
  cases answer with
  | ok _ => exact rest
  | error fault => trivial

theorem counts_advance {previous : Nat} {next : Nat → Plan}
    (rest : ∀ mtime, (next mtime).Counts version) :
    (Plan.advance shown place previous next).Counts version := by
  intro found
  cases found with
  | error fault => cases fault <;> trivial
  | ok node =>
      dsimp only
      split
      · exact rest _
      · exact counts_write (rest _)

theorem counts_load (path : String) :
    (Plan.load shown limit place path slot).Counts slot.version := by
  intro found
  cases found with
  | error fault =>
      cases fault
      case missing => exact counts_missing path slot
      all_goals trivial
  | ok node =>
      cases node with
      | directory => exact counts_missing path slot
      | file content modified =>
          dsimp only
          split
          · trivial
          · intro text
            cases text <;> trivial

theorem counts_replace (bytes : Wasm.Bytes) :
    (Plan.replace shown place bytes slot).Counts slot.version := by
  intro found
  exact counts_write (counts_write (counts_advance fun _ => rfl))

theorem counts_save (path content : String) (base : Option Nat) :
    (Plan.save shown place path content base slot).Counts slot.version := by
  unfold Plan.save
  split
  · split
    · trivial
    · exact counts_replace _
  · exact counts_replace _

theorem counts_create (path : String) :
    (Plan.create shown place path slot).Counts slot.version := by
  refine counts_write fun answer => ?_
  cases answer with
  | ok _ => exact counts_advance fun _ => rfl
  | error fault => cases fault <;> trivial

theorem counts_delete (path : String) :
    (Plan.delete shown place path slot).Counts slot.version := by
  intro answer
  cases answer with
  | ok _ => exact rfl
  | error fault =>
      cases fault
      case missing => exact counts_missing path slot
      all_goals trivial

theorem Operation.counts_plan (o : Operation) :
    (o.plan shown limit place slot).Counts slot.version := by
  cases o with
  | load path => exact counts_load path
  | save path content base => exact counts_save path content base
  | create path => exact counts_create path
  | delete path => exact counts_delete path

end

namespace Shelf

variable {ops : Nat → Operation} {trace : List Step} {w w' : Shelf} {s : Step} {place : Place}
  {c : Nat} {plan : Plan}

/-! ### Slots -/

/-- What ties the slots and the tasks together on any volume. -/
structure Kept (ops : Nat → Operation) (trace : List Step) (w : Shelf) : Prop where
  tabled : Tabled w
  placed : ∀ k p c, (w.phase k).Uses p c → w.table p = some c ∧ (ops k).place? = some p
  alone : ∀ j k c, (w.phase j).locked? = some c → (w.phase k).locked? = some c → j = k
  counted : ∀ p c slot, w.table p = some c → w.slots[c]? = some slot →
    slot.version = (mutations ops p trace).length
  unwritten : ∀ p, w.table p = none → mutations ops p trace = []
  counts : ∀ k p c plan slot, w.phase k = .inside p c plan → plan.isDone = false →
    w.slots[c]? = some slot → plan.Counts slot.version

theorem kept_opened (shown : Place → String) (limit : Nat) (volume : Volume) :
    Kept ops [] (opened shown limit volume) :=
  { filed_opened shown limit volume with counts := by simp [opened] }

theorem Kept.filed (kept : Kept ops trace w) : Filed ops trace w :=
  { kept with }

theorem tallies_of_counts {version : Nat} (counts : plan.Counts version) :
    plan.Tallies version := by
  cases plan with
  | commit slot file => exact counts
  | forget failure => exact counts
  | _ => trivial

/-- The plan that a step leaves its task with counts right. -/
theorem Kept.counts_of_takes (kept : Kept ops trace w) (takes : Takes ops w s w') {slot : Slot}
    (inside : w'.phase s.task = .inside place c plan) (busy : plan.isDone = false)
    (at_ : w'.slots[c]? = some slot) : plan.Counts slot.version := by
  cases takes with
  | lock _ _ at' =>
      obtain ⟨rfl, rfl, rfl⟩ := Phase.inside.inj ((phase_goto_self ..).symm.trans inside)
      cases at'.symm.trans at_
      exact (ops _).counts_plan
  | stat here | read here | change here =>
      obtain ⟨rfl, rfl, rfl⟩ := Phase.inside.inj ((phase_goto_self ..).symm.trans inside)
      exact kept.counts _ _ _ _ slot here rfl at_ _
  | commit _ | forget _ _ | keep _ _ =>
      obtain ⟨-, -, rfl⟩ := Phase.inside.inj ((phase_goto_self ..).symm.trans inside)
      cases busy
  | _ => cases (phase_goto_self ..).symm.trans inside

theorem Kept.step (kept : Kept ops trace w) (takes : Takes ops w s w') :
    Kept ops (trace ++ [s]) w' := by
  have filed := kept.filed.step takes fun p c plan slot inside busy at_ =>
    tallies_of_counts (kept.counts s.task p c plan slot inside busy at_)
  refine { filed with counts := fun j p c plan slot inside busy at_ => ?_ }
  by_cases own : j = s.task
  · subst own
    exact kept.counts_of_takes takes inside busy at_
  · rw [phase_of_takes takes own] at inside
    have elsewhere := kept.filed.elsewhere own (worksAt_of_inside inside busy)
    have entry := (kept.placed j p c (uses_of_inside inside busy)).1
    rw [kept.filed.slot_of_takes takes elsewhere entry] at at_
    exact kept.counts j p c plan slot inside busy at_

/-- What the tasks can come to on any volume. -/
def Reaches (ops : Nat → Operation) (trace : List Step) (w : Shelf) : Prop :=
  ∃ shown limit volume, Leads ops (opened shown limit volume) trace w

theorem Reaches.kept (reaches : Reaches ops trace w) : Kept ops trace w := by
  obtain ⟨shown, limit, volume, leads⟩ := reaches
  induction leads with
  | refl => exact kept_opened shown limit volume
  | snoc _ takes ih => exact ih.step takes

end Shelf

end Workbench.Session.Loader
