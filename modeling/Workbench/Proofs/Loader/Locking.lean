import Workbench.Proofs.Loader.PlanSoundness
import Workbench.Proofs.Loader.Slots

/-!
# Slots and files

However the tasks go on, one task at most has a slot locked, the slot of a place counts the writes
to it, and while no task works at a place its file is the one that the last write left.
-/

namespace Workbench.Session.Loader.Shelf

open Files (Place Disk Volume)
open Files.Disk (Sets)
open Wasm (Bytes)

variable {ops : Nat → Operation} {trace : List Step} {w w' : Shelf} {s : Step} {k : Nat}
  {place : Place} {c : Nat} {plan : Plan}

/-- What the last write to a place left, if there was one. -/
def lastLeft (ops : Nat → Operation) (place : Place) (trace : List Step) : Option (Option Bytes) :=
  (mutations ops place trace).getLast?.map fun k => (ops k).leaves

/-- What ties the slots, the disk and the tasks together. -/
structure Inv (ops : Nat → Operation) (trace : List Step) (w : Shelf) : Prop where
  tree : w.volume.disk.IsTree
  calm : w.volume.Calm
  tabled : Tabled w
  placed : ∀ k p c, (w.phase k).Uses p c → w.table p = some c ∧ (ops k).place? = some p
  alone : ∀ j k c, (w.phase j).locked? = some c → (w.phase k).locked? = some c → j = k
  counted : ∀ p c slot, w.table p = some c → w.slots[c]? = some slot →
    slot.version = (mutations ops p trace).length
  unwritten : ∀ p, w.table p = none → mutations ops p trace = []
  resting : ∀ p, (∀ k, ¬ (w.phase k).WorksAt p) →
    Shows (lastLeft ops p trace) (w.volume.disk.fileAt p)
  sound : ∀ k p c plan slot, w.phase k = .inside p c plan → plan.isDone = false →
    w.slots[c]? = some slot →
    plan.Sound (ops k) p slot (lastLeft ops p trace) (w.volume.disk.fileAt p)

theorem inv_opened {shown : Place → String} {limit : Nat} {volume : Volume}
    (tree : volume.disk.IsTree) (calm : volume.Calm) : Inv ops [] (opened shown limit volume) :=
  { filed_opened shown limit volume with
    tree := tree
    calm := calm
    resting := by simp [mutations, lastLeft, Shows]
    sound := by simp [opened] }

theorem Inv.filed (inv : Inv ops trace w) : Filed ops trace w :=
  { inv with }

/-! ### Sound plans -/

section

variable {o : Operation} {slot : Slot} {last : Option (Option Bytes)} {file : Option Bytes}

theorem tallies_of_sound (sound : plan.Sound o place slot last file) :
    plan.Tallies slot.version := by
  cases plan with
  | commit slot' version => exact sound.2.1
  | forget failure => exact sound.2.1
  | _ => trivial

/-- A plan at its end has left the file as the last write left it. -/
theorem shows_of_sound (sound : plan.Sound o place slot last file) (done : plan.isDone = true) :
    Shows last file := by
  cases plan with
  | done answer => exact sound.1
  | _ => cases done

end

/-! ### What the task of a step finds -/

/-- What a task finds that can lock the slot of its place. -/
theorem Inv.sound_lock (inv : Inv ops trace w) (waiting : w.phase k = .waiting place c)
    (free : ∀ j, (w.phase j).locked? ≠ some c) (slot : Slot) :
    ((ops k).plan w.shown w.limit place slot).Sound (ops k) place slot (lastLeft ops place trace)
      (w.volume.disk.fileAt place) := by
  obtain ⟨entry, owns⟩ := inv.placed k place c (uses_of_waiting waiting)
  refine (ops k).sound_plan (confine?_ne_nil owns) (inv.resting place fun j works => ?_)
  -- Whoever worked at the place would have the slot locked.
  obtain ⟨c', plan, inside, busy⟩ := exists_inside_of_worksAt works
  have same := inv.filed.cell_eq (uses_of_inside inside busy) entry
  subst same
  exact free j (locked?_of_inside inside)

/-- What a call of a task leaves: a volume, on which the next plan of the task is sound. -/
structure Proceeds (ops : Nat → Operation) (trace : List Step) (w : Shelf) (k : Nat)
    (place : Place) (c : Nat) (v : Volume) (next : Plan) : Prop where
  calm : v.Calm
  sound : ∃ file, Sets place file w.volume.disk v.disk ∧ ∀ slot, w.slots[c]? = some slot →
    next.Sound (ops k) place slot (lastLeft ops place trace) file

/-- A call that only looks leaves the disk as it is. -/
theorem Inv.proceeds_query (inv : Inv ops trace w) {α : Type} {look : Disk → Except Files.Fault α}
    {next : Except Files.Fault α → Plan}
    (sound : ∀ slot, w.slots[c]? = some slot → (next (look w.volume.disk)).Sound (ops k) place slot
      (lastLeft ops place trace) (w.volume.disk.fileAt place)) :
    Proceeds ops trace w k place c (w.volume.query look).2 (next (w.volume.query look).1) := by
  obtain ⟨same, disk, calm⟩ := inv.calm.query look
  refine ⟨calm, w.volume.disk.fileAt place, ?_, fun slot at_ => ?_⟩
  · rw [disk]
    exact ⟨inv.tree, rfl, fun _ _ => rfl⟩
  · rw [same]
    exact sound slot at_

theorem Inv.proceeds_stat (inv : Inv ops trace w) {next : Except Files.Fault Files.Node → Plan}
    (inside : w.phase k = .inside place c (.stat next)) :
    Proceeds ops trace w k place c (w.volume.query (·.stat place)).2
      (next (w.volume.query (·.stat place)).1) :=
  inv.proceeds_query fun slot at_ => inv.sound k place c _ slot inside rfl at_ _ inv.tree rfl

theorem Inv.proceeds_read (inv : Inv ops trace w) {next : Except Files.Fault String → Plan}
    (inside : w.phase k = .inside place c (.read next)) :
    Proceeds ops trace w k place c (w.volume.query (·.readText place)).2
      (next (w.volume.query (·.readText place)).1) :=
  inv.proceeds_query fun slot at_ => inv.sound k place c _ slot inside rfl at_ _ inv.tree rfl

theorem Inv.proceeds_change (inv : Inv ops trace w) {act : Disk → Nat → Except Files.Fault Disk}
    {next : Except Files.Fault Unit → Plan}
    (inside : w.phase k = .inside place c (.change act next)) :
    Proceeds ops trace w k place c (w.volume.change act).2 (next (w.volume.change act).1) := by
  obtain ⟨slot, at_⟩ := inv.filed.slot (inv.placed k place c (uses_of_inside inside rfl)).1
  obtain ⟨calm, now, ⟨fault, acts, answer, disk⟩ | ⟨d, acts, answer, disk⟩⟩ := inv.calm.change act
  · refine ⟨calm, w.volume.disk.fileAt place, ?_, fun slot' at_' => ?_⟩
    · rw [disk]
      exact ⟨inv.tree, rfl, fun _ _ => rfl⟩
    · rw [answer]
      exact (inv.sound k place c _ slot' inside rfl at_' _ now inv.tree rfl).1 fault acts
  · obtain ⟨file, sets, sound⟩ :=
      (inv.sound k place c _ slot inside rfl at_ _ now inv.tree rfl).2 d acts
    refine ⟨calm, file, by rwa [disk], fun slot' at_' => ?_⟩
    cases at_.symm.trans at_'
    rwa [answer]

/-! ### Steps -/

theorem lastLeft_append_of_ne (quiet : s.move ≠ .commit) (place : Place) :
    lastLeft ops place (trace ++ [s]) = lastLeft ops place trace := by
  rw [lastLeft, mutations_append_of_ne quiet, lastLeft]

section

variable (inv : Inv ops trace w) (takes : Takes ops w s w')

include inv takes

/-- A step makes no call and leaves the volume alone, or is a call of a task at work. -/
theorem Inv.call_of_takes : s.move ≠ .call ∧ w'.volume = w.volume ∨
    s.move = .call ∧ ∃ p c plan next, w.phase s.task = .inside p c plan ∧ plan.isDone = false ∧
      w'.phase s.task = .inside p c next ∧ w'.slots = w.slots ∧
      Proceeds ops trace w s.task p c w'.volume next := by
  cases takes with
  | stat inside =>
      exact .inr ⟨rfl, _, _, _, _, inside, rfl, phase_goto_self .., rfl, inv.proceeds_stat inside⟩
  | read inside =>
      exact .inr ⟨rfl, _, _, _, _, inside, rfl, phase_goto_self .., rfl, inv.proceeds_read inside⟩
  | change inside =>
      exact .inr ⟨rfl, _, _, _, _, inside, rfl, phase_goto_self .., rfl, inv.proceeds_change inside⟩
  | _ => exact .inl ⟨nofun, rfl⟩

theorem Inv.calm_of_takes : w'.volume.Calm := by
  obtain ⟨-, same⟩ | ⟨-, p, c, plan, next, -, -, -, -, proceeds⟩ := inv.call_of_takes takes
  · exact same ▸ inv.calm
  · exact proceeds.calm

theorem Inv.tree_of_takes : w'.volume.disk.IsTree := by
  obtain ⟨-, same⟩ | ⟨-, p, c, plan, next, -, -, -, -, proceeds⟩ := inv.call_of_takes takes
  · exact same ▸ inv.tree
  · obtain ⟨file, sets, -⟩ := proceeds.sound
    exact sets.tree

/-- A step changes no file but the one of the place that its task works at. -/
theorem Inv.fileAt_of_takes (idle : ¬ (w.phase s.task).WorksAt place) :
    w'.volume.disk.fileAt place = w.volume.disk.fileAt place := by
  obtain ⟨-, same⟩ | ⟨-, p, c, plan, next, inside, busy, -, -, proceeds⟩ :=
    inv.call_of_takes takes
  · rw [same]
  · obtain ⟨file, sets, -⟩ := proceeds.sound
    refine sets.others place ?_
    rintro rfl
    exact idle (worksAt_of_inside inside busy)

theorem Inv.lastLeft_of_takes (idle : ¬ (w.phase s.task).WorksAt place) :
    lastLeft ops place (trace ++ [s]) = lastLeft ops place trace := by
  rw [lastLeft, inv.filed.mutations_of_takes takes idle, lastLeft]

/-- The plan that a step leaves its task with is sound. -/
theorem Inv.sound_of_takes {slot : Slot} (inside : w'.phase s.task = .inside place c plan)
    (busy : plan.isDone = false) (at_ : w'.slots[c]? = some slot) :
    plan.Sound (ops s.task) place slot (lastLeft ops place (trace ++ [s]))
      (w'.volume.disk.fileAt place) := by
  obtain ⟨uncalled, -⟩ | ⟨called, p, c', plan', next, -, -, inside', slots, proceeds⟩ :=
    inv.call_of_takes takes
  · cases takes with
    | @lock k p c' slot' waiting free at' =>
        obtain ⟨rfl, rfl, rfl⟩ := Phase.inside.inj ((phase_goto_self ..).symm.trans inside)
        cases at'.symm.trans at_
        rw [lastLeft_append_of_ne (by simp)]
        exact inv.sound_lock waiting free slot
    | stat _ | read _ | change _ => exact absurd rfl uncalled
    | commit _ | forget _ _ | keep _ _ =>
        obtain ⟨-, -, rfl⟩ := Phase.inside.inj ((phase_goto_self ..).symm.trans inside)
        cases busy
    | _ => cases (phase_goto_self ..).symm.trans inside
  · obtain ⟨rfl, rfl, rfl⟩ := Phase.inside.inj (inside'.symm.trans inside)
    obtain ⟨file, sets, sound⟩ := proceeds.sound
    rw [lastLeft_append_of_ne (by simp [called]), sets.here]
    exact sound slot (slots ▸ at_)

/-- A task that is at its end with a place leaves the file as the last write left it. -/
theorem Inv.shows_of_takes (worked : (w.phase s.task).WorksAt place)
    (idle : ¬ (w'.phase s.task).WorksAt place) :
    Shows (lastLeft ops place (trace ++ [s])) (w'.volume.disk.fileAt place) := by
  obtain ⟨c, plan, inside, busy⟩ := exists_inside_of_worksAt worked
  obtain ⟨entry, owns⟩ := inv.placed s.task place c (uses_of_inside inside busy)
  obtain ⟨slot, at_⟩ := inv.filed.slot entry
  have sound := inv.sound s.task place c plan slot inside busy at_
  obtain ⟨uncalled, -⟩ | ⟨called, p, c', plan', next, here, -, inside', -, proceeds⟩ :=
    inv.call_of_takes takes
  · cases takes with
    | @commit k p c' slot' file here =>
        obtain ⟨rfl, rfl, rfl⟩ := Phase.inside.inj (inside.symm.trans here)
        intro left h
        rw [lastLeft, mutations_append_commit owns, List.getLast?_concat] at h
        cases h
        exact sound.1
    | forget here _ | keep here _ =>
        obtain ⟨rfl, rfl, rfl⟩ := Phase.inside.inj (inside.symm.trans here)
        rw [lastLeft_append_of_ne (by simp)]
        exact sound.1
    | stat _ | read _ | change _ => exact absurd rfl uncalled
    | unlock here =>
        obtain ⟨-, -, rfl⟩ := Phase.inside.inj (inside.symm.trans here)
        cases busy
    | refuse here _ | find here _ _ | make here _ _ | lock here _ _ | release here =>
        cases inside.symm.trans here
  · obtain ⟨rfl, rfl, rfl⟩ := Phase.inside.inj (inside.symm.trans here)
    obtain ⟨file, sets, sound⟩ := proceeds.sound
    rw [lastLeft_append_of_ne (by simp [called]), sets.here]
    refine shows_of_sound (sound slot at_) (eq_true_of_ne_false fun busy => idle ?_)
    exact worksAt_of_inside inside' busy

theorem Inv.step : Inv ops (trace ++ [s]) w' := by
  have filed := inv.filed.step takes fun p c plan slot inside busy at_ =>
    tallies_of_sound (inv.sound s.task p c plan slot inside busy at_)
  refine { filed with
    tree := inv.tree_of_takes takes
    calm := inv.calm_of_takes takes
    resting := fun p idle => ?_
    sound := fun j p c plan slot inside busy at_ => ?_ }
  · by_cases worked : (w.phase s.task).WorksAt p
    · exact inv.shows_of_takes takes worked (idle s.task)
    · rw [inv.lastLeft_of_takes takes worked, inv.fileAt_of_takes takes worked]
      refine inv.resting p fun j works => ?_
      by_cases own : j = s.task
      · exact worked (own ▸ works)
      · exact idle j (phase_of_takes takes own ▸ works)
  · by_cases own : j = s.task
    · subst own
      exact inv.sound_of_takes takes inside busy at_
    · rw [phase_of_takes takes own] at inside
      have elsewhere := inv.filed.elsewhere own (worksAt_of_inside inside busy)
      have entry := (inv.placed j p c (uses_of_inside inside busy)).1
      rw [inv.filed.slot_of_takes takes elsewhere entry] at at_
      rw [inv.lastLeft_of_takes takes elsewhere, inv.fileAt_of_takes takes elsewhere]
      exact inv.sound j p c plan slot inside busy at_

end

theorem Run.inv (run : Run ops trace w) : Inv ops trace w :=
  run.induction (motive := Inv ops) (fun _ _ _ tree calm => inv_opened tree calm)
    fun inv takes => inv.step takes

end Workbench.Session.Loader.Shelf
