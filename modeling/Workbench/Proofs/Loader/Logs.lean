import Mathlib.Control.Monad.Basic
import Workbench.Proofs.Loader.Effects

/-!
# Logs

A log is what operations one after another have done: each with the store that it found. What holds
of the stores of a log is proved operation by operation, and what holds between two of its entries
along those that stand between them.
-/

namespace Workbench.Session

namespace Loader

open Files (Place)
open Wasm (Bytes)

/-! ### Entries -/

/-- An operation and the store on which it was carried out. -/
structure Entry where
  operation : Operation
  before : Store

namespace Entry

variable (e : Entry)

def answer : Except Failure Reply :=
  (e.operation.action e.before).1

def after : Store :=
  (e.operation.action e.before).2

/-- The place that the operation gets to; none if it is refused before it looks a slot up. -/
def place? : Option Place :=
  (e.operation.accept e.before.maxFileSize).toOption

variable {e} {place : Place}

theorem place?_eq_some_iff :
    e.place? = some place ↔ e.operation.accept e.before.maxFileSize = .ok place := by
  unfold place?
  cases e.operation.accept e.before.maxFileSize <;> simp [Except.toOption]

theorem effect (tree : e.before.volume.disk.IsTree) (there : e.place? = some place) :
    Effect e.operation place e.before e.answer e.after :=
  e.operation.effect tree (place?_eq_some_iff.1 there)

theorem of_place?_eq_none (nowhere : e.place? = none) :
    e.after = e.before ∧ ∃ failure, e.answer = .error failure := by
  cases refuses : e.operation.accept e.before.maxFileSize with
  | error failure =>
      have same := e.operation.action_of_refused refuses
      exact ⟨congrArg Prod.snd same, failure, congrArg Prod.fst same⟩
  | ok p => cases nowhere.symm.trans (place?_eq_some_iff.2 refuses)

theorem operation_place? (there : e.place? = some place) : e.operation.place? = some place :=
  Shelf.place?_of_accept (place?_eq_some_iff.1 there)

/-- What succeeds has got to its place. -/
theorem place?_of_ok {reply : Reply} (owns : e.operation.place? = some place)
    (told : e.answer = .ok reply) : e.place? = some place := by
  cases there : e.place? with
  | none =>
      obtain ⟨-, failure, fails⟩ := of_place?_eq_none there
      cases told.symm.trans fails
  | some p => rw [← operation_place? there, owns]

end Entry

theorem Effect.exists_becomes {o : Operation} {place : Place} {s s' : Store}
    {answer : Except Failure Reply} (h : Effect o place s answer s') :
    ∃ slot file, Becomes place slot file s s' := by
  cases h with
  | loaded _ _ _ _ _ _ _ becomes => exact ⟨_, _, becomes⟩
  | written _ _ _ _ _ _ becomes => exact ⟨_, _, becomes⟩
  | removed _ _ _ _ becomes => exact ⟨_, _, becomes⟩
  | forgotten _ _ becomes => exact ⟨_, _, becomes⟩
  | refused _ _ _ becomes => exact ⟨_, _, becomes⟩
  | brokenOff _ _ _ _ _ _ _ _ _ _ becomes => exact ⟨_, _, becomes⟩

namespace Entry

variable {e : Entry} {p : Place}

theorem tree_after (tree : e.before.volume.disk.IsTree) : e.after.volume.disk.IsTree := by
  cases there : e.place? with
  | none => rwa [(of_place?_eq_none there).1]
  | some place =>
      obtain ⟨slot, file, becomes⟩ := (effect tree there).exists_becomes
      exact becomes.files.tree

theorem calm_after (tree : e.before.volume.disk.IsTree) (calm : e.before.volume.Calm) :
    e.after.volume.Calm := by
  cases there : e.place? with
  | none => rwa [(of_place?_eq_none there).1]
  | some place =>
      obtain ⟨slot, file, becomes⟩ := (effect tree there).exists_becomes
      exact becomes.calm calm

/-- An operation at another place changes neither the slot nor the file of a place. -/
theorem after_of_ne (tree : e.before.volume.disk.IsTree) (elsewhere : e.place? ≠ some p) :
    e.after.slots.lookup p = e.before.slots.lookup p ∧ e.after.datedAt p = e.before.datedAt p := by
  cases there : e.place? with
  | none => rw [(of_place?_eq_none there).1]; exact ⟨rfl, rfl⟩
  | some place =>
      have apart : p ≠ place := fun same => elsewhere (same ▸ there)
      obtain ⟨slot, file, becomes⟩ := (effect tree there).exists_becomes
      exact ⟨becomes.slots p apart, becomes.datedAt_of_ne apart⟩

/-! ### What becomes of a place -/

/-- The entry stores a file at a place and reports its time. -/
def Writes (e : Entry) (p : Place) (time : Nat) : Prop :=
  e.operation.place? = some p ∧ e.operation.leaves ≠ none ∧
    ∃ file, e.answer = .ok (.version file) ∧ file.mtime = time

/-- The entry deletes the file at a place, which is the write of a given number. -/
def Removes (e : Entry) (p : Place) (number : Nat) : Prop :=
  e.operation.place? = some p ∧ e.operation.leaves = none ∧
    ∃ file, e.answer = .ok (.version file) ∧ file.version = number

/-- The operation has written what it leaves at its place, has not counted that, and then fails at a
call that was to tell or to set the time of the file. -/
def BreaksOff (e : Entry) (p : Place) : Prop :=
  e.place? = some p ∧ ∃ (written : Store) (bytes : Bytes) (time previous : Nat) (failure : Failure),
    e.operation.leaves = some bytes ∧
      Becomes p (some (e.before.slotAt p)) (some (bytes, time)) e.before written ∧
      ¬ written.volume.Calm ∧ advanceTime p previous written = (.error failure, e.after) ∧
      e.answer = .error failure

/-- An operation breaks off at a fault of the disk alone. -/
theorem not_breaksOff (calm : e.before.volume.Calm) : ¬ e.BreaksOff p := by
  rintro ⟨-, written, bytes, time, previous, failure, -, wrote, loud, -⟩
  exact loud (wrote.calm calm)

/-- What an entry does to the slot and the file of a place. -/
inductive Fate (e : Entry) (p : Place) : Prop
  | kept (slot : e.after.slotAt p = e.before.slotAt p)
      (file : e.after.datedAt p = e.before.datedAt p)
  | forgot (fresh : (e.before.slotAt p).version = 0) (slot : e.after.slotAt p = .fresh)
      (file : e.after.datedAt p = e.before.datedAt p)
  | wrote (bytes : Bytes) (time : Nat) (writes : e.Writes p time)
      (slot : e.after.slotAt p = ⟨(e.before.slotAt p).version + 1, time⟩)
      (file : e.after.datedAt p = some (bytes, time))
  | removed (removes : e.Removes p ((e.before.slotAt p).version + 1))
      (slot : e.after.slotAt p =
        { e.before.slotAt p with version := (e.before.slotAt p).version + 1 })
      (file : e.after.datedAt p = none)
  | broke (breaks : e.BreaksOff p) (slot : e.after.slotAt p = e.before.slotAt p)
      (file : (e.after.datedAt p).map (·.1) = e.operation.leaves)

theorem fate (tree : e.before.volume.disk.IsTree) (p : Place) : e.Fate p := by
  by_cases there : e.place? = some p
  · have owns := operation_place? there
    cases effect tree there with
    | loaded bytes time _ _ found _ _ becomes =>
        exact .kept becomes.slotAt_some (becomes.datedAt.trans found.symm)
    | written bytes mtime leaves _ _ told becomes =>
        exact .wrote bytes mtime ⟨owns, by simp [leaves], _, told, rfl⟩ becomes.slotAt_some
          becomes.datedAt
    | removed _ leaves _ told becomes =>
        exact .removed ⟨owns, leaves, _, told, rfl⟩ becomes.slotAt_some becomes.datedAt
    | forgotten fresh _ becomes => exact .forgot fresh becomes.slotAt becomes.datedAt
    | refused _ _ _ becomes => exact .kept becomes.slotAt_some becomes.datedAt
    | brokenOff bytes time previous written failure leaves told wrote loud fails becomes =>
        refine .broke ⟨there, written, bytes, time, previous, failure, ?_⟩ becomes.slotAt_some ?_
        · exact ⟨leaves, wrote, loud, fails, told⟩
        · rw [becomes.datedAt, leaves, Option.map_some]
  · obtain ⟨slot, file⟩ := after_of_ne tree there
    exact .kept (Store.slotAt_congr slot) file

end Entry

end Loader

/-! ### Operations one after another -/

namespace Store

open Files (Place)
open Loader (Operation Entry)

/-- The log of operations that begin with a store. -/
def log : Store → List Operation → List Entry
  | _, [] => []
  | s, o :: ops => ⟨o, s⟩ :: (o.action s).2.log ops

/-- The store that operations leave. -/
def behind : Store → List Operation → Store
  | s, [] => s
  | s, o :: ops => (o.action s).2.behind ops

variable {s : Store} {ops : List Operation}

/-- What the operations of a log keep. -/
theorem behind_of_log {P : Store → Prop} (start : P s)
    (keeps : ∀ e ∈ s.log ops, P e.before → P e.after) : P (s.behind ops) := by
  induction ops generalizing s with
  | nil => exact start
  | cons o ops ih =>
      refine ih (keeps ⟨o, s⟩ (by simp [log]) start) fun e mem => keeps e ?_
      exact List.mem_cons_of_mem _ mem

/-- What every operation keeps of the log so far and the store behind it. -/
theorem log_induction {P : List Entry → Store → Prop}
    (step : ∀ log (e : Entry), P log e.before → P (log ++ [e]) e.after) {front : List Entry}
    (start : P front s) (ops : List Operation) : P (front ++ s.log ops) (s.behind ops) := by
  induction ops generalizing front s with
  | nil => rwa [log, List.append_nil]
  | cons o ops ih =>
      have here := ih (step front ⟨o, s⟩ start)
      rwa [List.append_assoc] at here

/-- What all operations keep holds in front of each entry. -/
theorem before_of_log {P : Store → Prop} (start : P s)
    (keeps : ∀ e : Entry, P e.before → P e.after) {e : Entry} (mem : e ∈ s.log ops) :
    P e.before := by
  induction ops generalizing s with
  | nil => cases mem
  | cons o ops ih =>
      rcases List.mem_cons.1 mem with rfl | mem
      · exact start
      · exact ih (keeps ⟨o, s⟩ start) mem

/-- A log goes on from the store behind each of its entries. -/
theorem exists_of_log_eq {front rest : List Entry} {e : Entry}
    (h : s.log ops = front ++ e :: rest) :
    ∃ first more, ops = first ++ e.operation :: more ∧ front = s.log first ∧
      e.before = s.behind first ∧ rest = e.after.log more := by
  induction front generalizing s ops with
  | nil =>
      cases ops with
      | nil => cases h
      | cons o ops =>
          rw [log, List.nil_append, List.cons.injEq] at h
          obtain ⟨rfl, rfl⟩ := h
          exact ⟨[], ops, rfl, rfl, rfl, rfl⟩
  | cons f front ih =>
      cases ops with
      | nil => cases h
      | cons o ops =>
          rw [log, List.cons_append, List.cons.injEq] at h
          obtain ⟨rfl, h⟩ := h
          obtain ⟨first, more, rfl, rfl, before, rest⟩ := ih h
          exact ⟨o :: first, more, rfl, rfl, before, rest⟩

end Store

namespace Loader

/-- In a log, one entry comes after another, with given entries between them. -/
def Follows (log : List Entry) (e : Entry) (between : List Entry) (e' : Entry) : Prop :=
  ∃ front rest, log = front ++ e :: (between ++ e' :: rest)

variable {s : Store} {ops : List Operation} {e e' : Entry} {between : List Entry}

/-- The entries between are a log from one to the other. -/
theorem Follows.exists_ops (h : Follows (s.log ops) e between e') :
    e ∈ s.log ops ∧ ∃ more, between = e.after.log more ∧ e'.before = e.after.behind more := by
  obtain ⟨front, rest, split⟩ := h
  refine ⟨by simp [split], ?_⟩
  obtain ⟨first, more, -, -, -, tail⟩ := Store.exists_of_log_eq split
  obtain ⟨more', -, -, between_eq, before, -⟩ := Store.exists_of_log_eq tail.symm
  exact ⟨more', between_eq, before⟩

theorem tree_before (tree : s.volume.disk.IsTree) (mem : e ∈ s.log ops) :
    e.before.volume.disk.IsTree :=
  Store.before_of_log (P := (·.volume.disk.IsTree)) tree (fun _ tree => Entry.tree_after tree) mem

end Loader

end Workbench.Session
