import Workbench.Proofs.Files.Tree
import Workbench.Proofs.Loader.Plan

/-!
# Operations side by side

Any number of tasks carry out operations of one loader at the same time. A task looks up the slot of
its place, which makes one if there is none, waits until it can lock it, makes one call after the
other, unlocks the slot and lets go of it. Another task can come in between any two of these steps.

A slot that is given back is taken out of the table only if no other task refers to it, and a slot
that is made later for the same place is another one.
-/

namespace Workbench.Files.Volume

/-! ### Volumes that do not fail -/

/-- No call fails by itself. -/
def Calm (v : Volume) : Prop :=
  ∀ t ∈ v.turns, t.fault? = none

variable {v : Volume}

theorem Calm.turn (calm : v.Calm) : v.turn.2 = none ∧ v.turn.1.disk = v.disk ∧ v.turn.1.Calm := by
  unfold Volume.turn
  split
  · exact ⟨rfl, rfl, calm⟩
  · next t rest turns =>
      have here : t.fault? = none := calm t (by simp [turns])
      exact ⟨here, rfl, fun t' mem => calm t' (by simp [turns, mem])⟩

theorem Calm.query {α : Type} (calm : v.Calm) (look : Disk → Except Fault α) :
    (v.query look).1 = look v.disk ∧ (v.query look).2.disk = v.disk ∧ (v.query look).2.Calm := by
  obtain ⟨unhurt, same, calm'⟩ := calm.turn
  unfold Volume.query
  split
  · next v' fault h =>
      rw [h] at unhurt
      cases unhurt
  · next v' h =>
      rw [h] at same calm'
      exact ⟨by rw [same], same, calm'⟩

/-- A change is made at some time, or is refused by the disk. -/
theorem Calm.change (calm : v.Calm) (act : Disk → Nat → Except Fault Disk) :
    (v.change act).2.Calm ∧ ∃ now,
      (∃ fault, act v.disk now = .error fault ∧ (v.change act).1 = .error fault ∧
        (v.change act).2.disk = v.disk) ∨
      ∃ d, act v.disk now = .ok d ∧ (v.change act).1 = .ok () ∧ (v.change act).2.disk = d := by
  obtain ⟨unhurt, same, calm'⟩ := calm.turn
  unfold Volume.change
  split
  · next v' fault h =>
      rw [h] at unhurt
      cases unhurt
  · next v' h =>
      rw [h] at same calm'
      rw [← same]
      cases acts : act v'.disk v'.now with
      | error fault => exact ⟨calm', v'.now, .inl ⟨fault, acts, rfl, rfl⟩⟩
      | ok d => exact ⟨calm', v'.now, .inr ⟨d, acts, rfl, rfl⟩⟩

end Workbench.Files.Volume

namespace Workbench.Session.Loader

open Files (Place Disk Volume)

def Plan.isDone : Plan → Bool
  | done _ => true
  | _ => false

/-! ### Tasks -/

inductive Phase where
  | called
  /-- The task has looked its slot up. -/
  | waiting (place : Place) (cell : Nat)
  /-- The task has locked its slot. -/
  | inside (place : Place) (cell : Nat) (plan : Plan)
  /-- The slot is unlocked, and the task still refers to it. -/
  | leaving (cell : Nat) (answer : Except Failure Reply)
  | returned (answer : Except Failure Reply)

namespace Phase

/-- The number of the slot that a task refers to. -/
def cell? : Phase → Option Nat
  | waiting _ c | inside _ c _ | leaving c _ => some c
  | _ => none

/-- The slot that a task has locked. -/
def locked? : Phase → Option Nat
  | inside _ c _ => some c
  | _ => none

/-- Whether a task is going to use, or uses, the slot of a place. -/
def Uses : Phase → Place → Nat → Prop
  | waiting p c, place, cell => p = place ∧ c = cell
  | inside p c plan, place, cell => p = place ∧ c = cell ∧ plan.isDone = false
  | _, _, _ => False

/-- Whether a task has something left to do at a place. -/
def WorksAt : Phase → Place → Prop
  | inside p _ plan, place => p = place ∧ plan.isDone = false
  | _, _ => False

end Phase

structure Shelf where
  /-- How messages show a place. -/
  shown : Place → String
  limit : Nat
  volume : Volume
  /-- All slots that have been made, by number. -/
  slots : List Slot
  table : Place → Option Nat
  phase : Nat → Phase

namespace Shelf

def opened (shown : Place → String) (limit : Nat) (volume : Volume) : Shelf :=
  ⟨shown, limit, volume, [], fun _ => none, fun _ => .called⟩

def goto (w : Shelf) (k : Nat) (p : Phase) : Shelf :=
  { w with phase := fun j => if j = k then p else w.phase j }

def setEntry (w : Shelf) (place : Place) (cell? : Option Nat) : Shelf :=
  { w with table := fun q => if q = place then cell? else w.table q }

/-- The shelf with a new slot for a place. -/
def making (w : Shelf) (place : Place) : Shelf :=
  { w.setEntry place (some w.slots.length) with slots := w.slots ++ [.fresh] }

/-- Whether the table has the slot, and no other task refers to it. -/
def Unshared (w : Shelf) (k : Nat) (place : Place) (cell : Nat) : Prop :=
  w.table place = some cell ∧ (∀ q, q ≠ place → w.table q ≠ some cell) ∧
    ∀ j, j ≠ k → (w.phase j).cell? ≠ some cell

section

variable (w : Shelf) (k : Nat) (p : Phase) (place : Place)

@[simp] theorem phase_goto_self : (w.goto k p).phase k = p := by simp [goto]

theorem phase_goto_of_ne {j : Nat} (h : j ≠ k) : (w.goto k p).phase j = w.phase j := by
  simp [goto, h]

@[simp] theorem slots_goto : (w.goto k p).slots = w.slots := rfl
@[simp] theorem table_goto : (w.goto k p).table = w.table := rfl

@[simp] theorem table_setEntry_self (c? : Option Nat) : (w.setEntry place c?).table place = c? := by
  simp [setEntry]

@[simp] theorem phase_making : (w.making place).phase = w.phase := rfl

@[simp] theorem table_making_self : (w.making place).table place = some w.slots.length := by
  simp [making]

theorem table_setEntry_of_ne (c? : Option Nat) {q : Place} (h : q ≠ place) :
    (w.setEntry place c?).table q = w.table q := by
  simp [setEntry, h]

end

/-! ### Tables -/

/-- Every slot in the table has been made, for one place. -/
structure Tabled (w : Shelf) : Prop where
  range : ∀ p c, w.table p = some c → c < w.slots.length
  apart : ∀ p q c, w.table p = some c → w.table q = some c → p = q

section

variable {w : Shelf} {place : Place} {p : Place} {c : Nat}

theorem table_setEntry_none (h : (w.setEntry place none).table p = some c) :
    p ≠ place ∧ w.table p = some c := by
  by_cases here : p = place
  · subst here
    rw [table_setEntry_self] at h
    cases h
  · exact ⟨here, table_setEntry_of_ne w place none here ▸ h⟩

theorem table_making (h : (w.making place).table p = some c) :
    p = place ∧ c = w.slots.length ∨ p ≠ place ∧ w.table p = some c := by
  by_cases here : p = place
  · subst here
    rw [table_making_self, Option.some.injEq] at h
    exact .inl ⟨rfl, h.symm⟩
  · rw [making] at h
    exact .inr ⟨here, (table_setEntry_of_ne w place _ here).symm.trans h⟩

theorem Tabled.dropping (tabled : Tabled w) : Tabled (w.setEntry place none) where
  range p c entry := tabled.range p c (table_setEntry_none entry).2
  apart p q c entry entry' :=
    tabled.apart p q c (table_setEntry_none entry).2 (table_setEntry_none entry').2

theorem Tabled.making (tabled : Tabled w) : Tabled (w.making place) where
  range p c entry := by
    simp only [Shelf.making, List.length_append, List.length_singleton]
    rcases table_making entry with ⟨-, rfl⟩ | ⟨-, entry⟩
    · omega
    · have := tabled.range p c entry
      omega
  apart p q c entry entry' := by
    rcases table_making entry with ⟨here, cell⟩ | ⟨-, entry⟩
    · rcases table_making entry' with ⟨here', -⟩ | ⟨-, entry'⟩
      · rw [here, here']
      · have := tabled.range q c entry'
        omega
    · rcases table_making entry' with ⟨-, cell⟩ | ⟨-, entry'⟩
      · have := tabled.range p c entry
        omega
      · exact tabled.apart p q c entry entry'

/-- The slot of another place is another one. -/
theorem Tabled.getElem?_set (tabled : Tabled w) (entry : w.table place = some c) {c' : Nat}
    (entry' : w.table p = some c') (other : p ≠ place) (slot : Slot) :
    (w.slots.set c slot)[c']? = w.slots[c']? := by
  refine List.getElem?_set_ne ?_
  rintro rfl
  exact other (tabled.apart p place c entry' entry)

theorem Tabled.getElem?_making (tabled : Tabled w) (entry : w.table p = some c) :
    (w.making place).slots[c]? = w.slots[c]? :=
  List.getElem?_append_left (tabled.range p c entry)

theorem getElem?_making_self (w : Shelf) (place : Place) :
    (w.making place).slots[w.slots.length]? = some .fresh := by
  simp [making]

end

/-! ### Steps -/

inductive Move where
  | lookup
  | lock
  /-- A call to the file system. -/
  | call
  /-- A write is counted. -/
  | commit
  | forget
  | unlock
  | release
  deriving DecidableEq, Repr

structure Step where
  task : Nat
  move : Move
  deriving DecidableEq, Repr

variable (ops : Nat → Operation)

inductive Takes (w : Shelf) : Step → Shelf → Prop
  | refuse {k : Nat} {failure : Failure} :
      w.phase k = .called → (ops k).accept w.limit = .error failure →
      Takes w ⟨k, .lookup⟩ (w.goto k (.returned (.error failure)))
  | find {k : Nat} {place : Place} {c : Nat} :
      w.phase k = .called → (ops k).accept w.limit = .ok place → w.table place = some c →
      Takes w ⟨k, .lookup⟩ (w.goto k (.waiting place c))
  | make {k : Nat} {place : Place} :
      w.phase k = .called → (ops k).accept w.limit = .ok place → w.table place = none →
      Takes w ⟨k, .lookup⟩ ((w.making place).goto k (.waiting place w.slots.length))
  | lock {k : Nat} {place : Place} {c : Nat} {slot : Slot} :
      w.phase k = .waiting place c → (∀ j, (w.phase j).locked? ≠ some c) →
      w.slots[c]? = some slot →
      Takes w ⟨k, .lock⟩ (w.goto k (.inside place c ((ops k).plan w.shown w.limit place slot)))
  | stat {k : Nat} {place : Place} {c : Nat} {next : Except Files.Fault Files.Node → Plan} :
      w.phase k = .inside place c (.stat next) →
      Takes w ⟨k, .call⟩
        { w.goto k (.inside place c (next (w.volume.query (·.stat place)).1)) with
          volume := (w.volume.query (·.stat place)).2 }
  | read {k : Nat} {place : Place} {c : Nat} {next : Except Files.Fault String → Plan} :
      w.phase k = .inside place c (.read next) →
      Takes w ⟨k, .call⟩
        { w.goto k (.inside place c (next (w.volume.query (·.readText place)).1)) with
          volume := (w.volume.query (·.readText place)).2 }
  | change {k : Nat} {place : Place} {c : Nat} {act : Disk → Nat → Except Files.Fault Disk}
      {next : Except Files.Fault Unit → Plan} :
      w.phase k = .inside place c (.change act next) →
      Takes w ⟨k, .call⟩
        { w.goto k (.inside place c (next (w.volume.change act).1)) with
          volume := (w.volume.change act).2 }
  | commit {k : Nat} {place : Place} {c : Nat} {slot : Slot} {file : FileVersion} :
      w.phase k = .inside place c (.commit slot file) →
      Takes w ⟨k, .commit⟩
        { w.goto k (.inside place c (.done (.ok (.version file)))) with
          slots := w.slots.set c slot }
  | forget {k : Nat} {place : Place} {c : Nat} {failure : Failure} :
      w.phase k = .inside place c (.forget failure) → w.Unshared k place c →
      Takes w ⟨k, .forget⟩
        ((w.setEntry place none).goto k (.inside place c (.done (.error failure))))
  | keep {k : Nat} {place : Place} {c : Nat} {failure : Failure} :
      w.phase k = .inside place c (.forget failure) → ¬ w.Unshared k place c →
      Takes w ⟨k, .forget⟩ (w.goto k (.inside place c (.done (.error failure))))
  | unlock {k : Nat} {place : Place} {c : Nat} {answer : Except Failure Reply} :
      w.phase k = .inside place c (.done answer) →
      Takes w ⟨k, .unlock⟩ (w.goto k (.leaving c answer))
  | release {k : Nat} {c : Nat} {answer : Except Failure Reply} :
      w.phase k = .leaving c answer →
      Takes w ⟨k, .release⟩ (w.goto k (.returned answer))

/-- What steps in some order lead to, the last step at the end. -/
inductive Leads (w : Shelf) : List Step → Shelf → Prop
  | refl : Leads w [] w
  | snoc {steps : List Step} {s : Step} {w₁ w₂ : Shelf} :
      Leads w steps w₁ → Takes ops w₁ s w₂ → Leads w (steps ++ [s]) w₂

/-- What the tasks can come to on a disk that does not fail and that nobody else writes to. -/
def Run (trace : List Step) (w : Shelf) : Prop :=
  ∃ shown limit volume, volume.disk.IsTree ∧ volume.Calm ∧
    Leads ops (opened shown limit volume) trace w

/-- The tasks whose writes to a place were counted, in order. -/
def mutations (place : Place) (trace : List Step) : List Nat :=
  (trace.filter fun s => decide (s.move = .commit ∧ (ops s.task).place? = some place)).map (·.task)

variable {ops}

theorem mutations_append_of_ne {s : Step} (h : s.move ≠ .commit) (place : Place)
    (trace : List Step) : mutations ops place (trace ++ [s]) = mutations ops place trace := by
  simp [mutations, h]

theorem mutations_append_commit {k : Nat} {place : Place} (h : (ops k).place? = some place)
    (trace : List Step) :
    mutations ops place (trace ++ [⟨k, .commit⟩]) = mutations ops place trace ++ [k] := by
  simp [mutations, h]

theorem mutations_append_elsewhere {s : Step} {place : Place}
    (h : (ops s.task).place? ≠ some place) (trace : List Step) :
    mutations ops place (trace ++ [s]) = mutations ops place trace := by
  simp [mutations, h]

theorem mem_mutations {k : Nat} {place : Place} {trace : List Step} :
    k ∈ mutations ops place trace ↔ ⟨k, .commit⟩ ∈ trace ∧ (ops k).place? = some place := by
  unfold mutations
  simp only [List.mem_map, List.mem_filter, decide_eq_true_eq]
  constructor
  · rintro ⟨⟨task, move⟩, ⟨mem, rfl, there⟩, rfl⟩
    exact ⟨mem, there⟩
  · rintro ⟨mem, there⟩
    exact ⟨_, ⟨mem, rfl, there⟩, rfl⟩

theorem mutations_prefix (place : Place) (before after : List Step) :
    mutations ops place before <+: mutations ops place (before ++ after) := by
  simp [mutations]

theorem Leads.trans {w w₁ w₂ : Shelf} {steps more : List Step} (first : Leads ops w steps w₁)
    (second : Leads ops w₁ more w₂) : Leads ops w (steps ++ more) w₂ := by
  induction second with
  | refl => simpa using first
  | snoc _ takes ih =>
      rw [← List.append_assoc]
      exact ih.snoc takes

/-- Induction over the steps of a run. -/
theorem Run.induction {motive : List Step → Shelf → Prop}
    (opened : ∀ shown limit volume, volume.disk.IsTree → volume.Calm →
      motive [] (opened shown limit volume))
    (step : ∀ {trace w s w'}, motive trace w → Takes ops w s w' → motive (trace ++ [s]) w')
    {trace : List Step} {w : Shelf} (run : Run ops trace w) : motive trace w := by
  obtain ⟨shown, limit, volume, tree, calm, leads⟩ := run
  induction leads with
  | refl => exact opened shown limit volume tree calm
  | snoc _ takes ih => exact step ih takes

end Shelf

end Workbench.Session.Loader
