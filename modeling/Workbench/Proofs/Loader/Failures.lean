import Workbench.Proofs.Loader.Logs
import Workbench.Proofs.Lang.Texts

/-!
# Operations that fail

An operation that fails has changed no version, and no file but perhaps that of its place. It has
changed that one only if it broke off: its write went through, and then a call failed that was to
tell or to set the time of the file. Such a write is not counted, so that the next version is given
to another one. As long as none breaks off, loads with the same version have the same content.
-/

namespace Workbench.Session.Loader

open Files (Place)

variable {s : Store} {ops : List Operation} {e e' : Entry} {between : List Entry} {p : Place}

/-! ### What a failure leaves -/

theorem Entry.of_failure (tree : e.before.volume.disk.IsTree) {failure : Failure}
    (fails : e.answer = .error failure) (p : Place) :
    (e.after.slotAt p).version = (e.before.slotAt p).version ∧
      (e.after.datedAt p = e.before.datedAt p ∨
        e.BreaksOff p ∧ e.after.volume.disk.fileAt p = e.operation.leaves) := by
  cases fate tree p with
  | kept slot file => exact ⟨by rw [slot], .inl file⟩
  | forgot fresh slot file => exact ⟨(congrArg Slot.version slot).trans fresh.symm, .inl file⟩
  | wrote _ _ writes _ _ =>
      obtain ⟨-, -, file, told, -⟩ := writes
      cases fails.symm.trans told
  | removed removes _ _ =>
      obtain ⟨-, -, file, told, -⟩ := removes
      cases fails.symm.trans told
  | broke breaks slot file =>
      exact ⟨by rw [slot], .inr ⟨breaks, (Files.Disk.fileAt_eq_map _ p).trans file⟩⟩

/-! ### Between two loads -/

/-- There are no fewer writes to a place than before, and if there are no more then the file is the
same. -/
def Keeps (p : Place) (s s' : Store) : Prop :=
  (s.slotAt p).version ≤ (s'.slotAt p).version ∧
    ((s'.slotAt p).version = (s.slotAt p).version → s'.datedAt p = s.datedAt p)

theorem Keeps.refl (p : Place) (s : Store) : Keeps p s s :=
  ⟨Nat.le_refl _, fun _ => rfl⟩

theorem Keeps.trans {s₁ s₂ s₃ : Store} (first : Keeps p s₁ s₂) (second : Keeps p s₂ s₃) :
    Keeps p s₁ s₃ := by
  have fewer := first.1
  have fewer' := second.1
  refine ⟨Nat.le_trans fewer fewer', fun same => ?_⟩
  rw [second.2 (by omega), first.2 (by omega)]

theorem Keeps.of_same {s s' : Store} (version : (s'.slotAt p).version = (s.slotAt p).version)
    (file : s'.datedAt p = s.datedAt p) : Keeps p s s' :=
  ⟨Nat.le_of_eq version.symm, fun _ => file⟩

theorem Keeps.of_write {s s' : Store} (version : (s'.slotAt p).version = (s.slotAt p).version + 1) :
    Keeps p s s' :=
  ⟨by omega, fun same => by omega⟩

theorem Entry.keeps (tree : e.before.volume.disk.IsTree) (sound : ¬ e.BreaksOff p) :
    Keeps p e.before e.after := by
  cases fate tree p with
  | kept slot file => exact .of_same (by rw [slot]) file
  | forgot fresh slot file => exact .of_same ((congrArg Slot.version slot).trans fresh.symm) file
  | wrote _ _ _ slot _ | removed _ slot _ => exact .of_write (by rw [slot])
  | broke breaks _ _ => exact absurd breaks sound

theorem keeps_behind (tree : s.volume.disk.IsTree)
    (sound : ∀ b ∈ s.log ops, ¬ b.BreaksOff p) : Keeps p s (s.behind ops) := by
  have both : (s.behind ops).volume.disk.IsTree ∧ Keeps p s (s.behind ops) :=
    Store.behind_of_log (P := fun s' => s'.volume.disk.IsTree ∧ Keeps p s s') ⟨tree, .refl p s⟩
      fun b mem h => ⟨Entry.tree_after h.1, h.2.trans (Entry.keeps h.1 (sound b mem))⟩
  exact both.2

/-! ### Failures in a log -/

/-- What failures leave alone in a log, and what loads tell of it. -/
structure Harmless (log : List Entry) : Prop where
  versions : ∀ e ∈ log, ∀ failure, e.answer = .error failure →
    ∀ p, (e.after.slotAt p).version = (e.before.slotAt p).version
  elsewhere : ∀ e ∈ log, ∀ p, e.operation.place? ≠ some p →
    e.after.datedAt p = e.before.datedAt p
  /-- The file is the same, with its time, or the operation broke off behind its write. -/
  files : ∀ e ∈ log, ∀ failure, e.answer = .error failure → ∀ p, e.operation.place? = some p →
    e.after.datedAt p = e.before.datedAt p ∨
      e.BreaksOff p ∧ e.after.volume.disk.fileAt p = e.operation.leaves
  /-- Without faults of the disk none breaks off. -/
  calm : ∀ e ∈ log, ∀ p, e.before.volume.Calm → ¬ e.BreaksOff p
  loads : ∀ e between e' p file file', Follows log e between e' →
    e.operation.place? = some p → e.answer = .ok (.content file) →
    e'.operation.place? = some p → e'.answer = .ok (.content file') →
    file'.version = file.version → (∀ b ∈ between, ¬ b.BreaksOff p) →
    file'.content = file.content

theorem Follows.same_content (tree : s.volume.disk.IsTree) (h : Follows (s.log ops) e between e')
    {file file' : FileContent} (owns : e.operation.place? = some p)
    (told : e.answer = .ok (.content file)) (owns' : e'.operation.place? = some p)
    (told' : e'.answer = .ok (.content file')) (same : file'.version = file.version)
    (sound : ∀ b ∈ between, ¬ b.BreaksOff p) : file'.content = file.content := by
  obtain ⟨mem, more, rfl, before⟩ := h.exists_ops
  have here : e.before.volume.disk.IsTree := tree_before tree mem
  have stays := keeps_behind (Entry.tree_after here) sound
  rw [← before] at stays
  have there : e'.before.volume.disk.IsTree :=
    before ▸ Store.behind_of_log (P := (·.volume.disk.IsTree)) (Entry.tree_after here)
      fun b _ tree => Entry.tree_after tree
  obtain ⟨bytes, time, found, spells, version, -, becomes⟩ :=
    (Entry.effect here (Entry.place?_of_ok owns told)).of_content told
  obtain ⟨bytes', time', found', spells', version', -, -⟩ :=
    (Entry.effect there (Entry.place?_of_ok owns' told')).of_content told'
  have slot : (e.after.slotAt p).version = file.version := by
    rw [becomes.slotAt_some, version]
  have file := stays.2 (by rw [slot, ← version', same])
  rw [found', becomes.datedAt, found, Option.some.injEq, Prod.mk.injEq] at file
  exact Lang.toUTF8_injective (by rw [spells, spells', file.1])

/-- Failures change nothing that was written, unless an operation breaks off behind its write. -/
theorem failures_are_harmless (s : Store) (tree : s.volume.disk.IsTree) (ops : List Operation) :
    Harmless (s.log ops) where
  versions _ mem _ fails p := (Entry.of_failure (tree_before tree mem) fails p).1
  elsewhere _ mem _ apart :=
    (Entry.after_of_ne (tree_before tree mem) fun there =>
      apart (Entry.operation_place? there)).2
  files _ mem _ fails p _ := (Entry.of_failure (tree_before tree mem) fails p).2
  calm _ _ _ calm := Entry.not_breaksOff calm
  loads _ _ _ _ _ _ h owns told owns' told' same sound :=
    h.same_content tree owns told owns' told' same sound

/-! ### A time that cannot be told -/

/-- A store with one file and a disk on which the sixth call fails. -/
def brokenStore : Store :=
  ⟨"", 64, "build", [],
    ⟨⟨[(["a"], .file [49] 9)]⟩, 9, List.replicate 5 ⟨0, none⟩ ++ [⟨0, some .denied⟩]⟩⟩

theorem isTree_broken : brokenStore.volume.disk.IsTree :=
  Files.Disk.isTree_single "a" (.file [49] 9)

/-- A save between two loads. -/
def savedOnce : List Operation :=
  [.load "a", .save "a" "2" none, .load "a"]

theorem failures_are_harmless_broken :
    (brokenStore.log savedOnce).map (·.answer) =
        [.ok (.content ⟨"a", "1", 9, 1, 0⟩), .error (.io "a" .denied),
          .ok (.content ⟨"a", "2", 9, 1, 0⟩)] ∧
      Harmless (brokenStore.log savedOnce) :=
  ⟨by decide +kernel, failures_are_harmless brokenStore isTree_broken savedOnce⟩

/-- A save that is told to have failed has replaced the content of its file, and the version stays.
The loads around it have the same version and other contents. -/
theorem failed_save_replaces_content : ∃ load save load', brokenStore.log savedOnce =
      [load, save, load'] ∧ save.answer = .error (.io "a" .denied) ∧
    save.before.datedAt ["a"] = some ([49], 9) ∧ save.after.datedAt ["a"] = some ([50], 9) ∧
    load.answer = .ok (.content ⟨"a", "1", 9, 1, 0⟩) ∧
    load'.answer = .ok (.content ⟨"a", "2", 9, 1, 0⟩) := by
  refine ⟨⟨.load "a", brokenStore⟩, ⟨.save "a" "2" none, brokenStore.behind [.load "a"]⟩,
    ⟨.load "a", brokenStore.behind [.load "a", .save "a" "2" none]⟩, rfl, ?_, ?_, ?_, ?_, ?_⟩
  all_goals decide +kernel

end Workbench.Session.Loader
