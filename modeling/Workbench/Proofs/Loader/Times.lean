import Workbench.Proofs.Loader.Logs

/-!
# Reported times

What a write reports is later than what any write to the same place has reported before, whatever
fails in between. It is also later than what loads have reported, as long as the slot remembers it:
a file that was there before the loader has its time on the disk alone, so if the first write to its
place deletes it, then the time is forgotten.
-/

namespace Workbench.Session.Loader

open Files (Place)

variable {s : Store} {ops : List Operation} {e e' : Entry} {between : List Entry} {p : Place}
  {t t' : Nat}

/-! ### Times that are reported -/

namespace Entry

/-- The entry loads the file at a place and reports its time. -/
def Loads (e : Entry) (p : Place) (time : Nat) : Prop :=
  e.operation.place? = some p ∧ ∃ file, e.answer = .ok (.content file) ∧ file.mtime = time

theorem Writes.later (tree : e.before.volume.disk.IsTree) (writes : e.Writes p t) :
    (e.before.slotAt p).mtime < t ∧
      (e.before.volume.Calm → ∀ bytes time, e.before.datedAt p = some (bytes, time) → time < t) ∧
      (e.after.slotAt p).mtime = t ∧ 1 ≤ (e.after.slotAt p).version ∧
      ∃ bytes, e.after.datedAt p = some (bytes, t) := by
  obtain ⟨owns, stores, file, told, rfl⟩ := writes
  obtain ⟨bytes, leaves⟩ := Option.ne_none_iff_exists'.1 stores
  obtain ⟨later, above, becomes⟩ := (effect tree (place?_of_ok owns told)).of_write leaves told
  have slot := becomes.slotAt_some
  exact ⟨later, above, by rw [slot], by simp [slot], bytes, becomes.datedAt⟩

theorem Loads.not_removes (loads : e.Loads p t) {number : Nat} : ¬ e.Removes p number := by
  obtain ⟨-, file, told, -⟩ := loads
  rintro ⟨-, -, file', told', -⟩
  cases told.symm.trans told'

theorem Loads.time_eq (tree : e.before.volume.disk.IsTree) (loads : e.Loads p t) :
    ∃ bytes time, e.before.datedAt p = some (bytes, time) ∧
      t = max time (e.before.slotAt p).mtime := by
  obtain ⟨owns, file, told, rfl⟩ := loads
  obtain ⟨bytes, time, found, -, -, mtime, -⟩ :=
    (effect tree (place?_of_ok owns told)).of_content told
  exact ⟨bytes, time, found, mtime⟩

end Entry

/-! ### What a slot remembers -/

/-- The slot of a place has a time only if there was a write. -/
def Unwritten (p : Place) (s : Store) : Prop :=
  (s.slotAt p).version = 0 → (s.slotAt p).mtime = 0

/-- The slot of a place that was written has no earlier time than the file. -/
def Covers (p : Place) (s : Store) : Prop :=
  1 ≤ (s.slotAt p).version → ∀ bytes time, s.datedAt p = some (bytes, time) →
    time ≤ (s.slotAt p).mtime

/-- A store whose disk does not fail, with what its slots keep up. -/
structure Settled (p : Place) (s : Store) : Prop where
  tree : s.volume.disk.IsTree
  calm : s.volume.Calm
  unwritten : Unwritten p s
  covers : Covers p s

/-- The latest time that is known of a place, on the disk or in its slot. -/
def latest (p : Place) (s : Store) : Nat :=
  max (s.slotAt p).mtime ((s.datedAt p).elim 0 (·.2))

theorem unwritten_of_fresh (fresh : s.slots = []) (p : Place) : Unwritten p s := by
  intro _
  rw [Store.slotAt, fresh]
  rfl

theorem settled_of_fresh (fresh : s.slots = []) (tree : s.volume.disk.IsTree)
    (calm : s.volume.Calm) (p : Place) : Settled p s where
  tree := tree
  calm := calm
  unwritten := unwritten_of_fresh fresh p
  covers written := by
    rw [Store.slotAt, fresh] at written
    cases written

namespace Entry

theorem unwritten_after (tree : e.before.volume.disk.IsTree) (h : Unwritten p e.before) :
    Unwritten p e.after := by
  unfold Unwritten at h ⊢
  cases fate tree p with
  | kept slot _ | broke _ slot _ => rwa [slot]
  | forgot _ slot _ =>
      rw [slot]
      exact fun _ => rfl
  | wrote _ _ _ slot _ | removed _ slot _ =>
      rw [slot]
      exact fun none => absurd none (Nat.succ_ne_zero _)

theorem mtime_le (tree : e.before.volume.disk.IsTree) (h : Unwritten p e.before) :
    (e.before.slotAt p).mtime ≤ (e.after.slotAt p).mtime := by
  cases fate tree p with
  | kept slot _ | broke _ slot _ | removed _ slot _ => exact Nat.le_of_eq (by rw [slot])
  | forgot fresh slot _ =>
      rw [h fresh]
      exact Nat.zero_le _
  | wrote _ _ writes slot _ =>
      rw [slot]
      exact Nat.le_of_lt (writes.later tree).1

theorem settled_after (h : Settled p e.before) : Settled p e.after where
  tree := tree_after h.tree
  calm := calm_after h.tree h.calm
  unwritten := unwritten_after h.tree h.unwritten
  covers := by
    have covers := h.covers
    unfold Covers at covers ⊢
    cases fate h.tree p with
    | kept slot file => rwa [slot, file]
    | broke breaks _ _ => exact absurd breaks (not_breaksOff h.calm)
    | forgot _ slot _ =>
        rw [slot]
        exact fun written => absurd written (Nat.not_succ_le_zero 0)
    | wrote bytes time _ slot file =>
        rw [slot, file]
        rintro - _ _ ⟨⟩
        exact Nat.le_refl _
    | removed _ _ file =>
        rw [file]
        rintro - _ _ ⟨⟩

/-- What is known of the time of a place does not get less, unless the first write to it deletes
the file. -/
theorem latest_le (h : Settled p e.before) (kept : ¬ e.Removes p 1) :
    latest p e.before ≤ latest p e.after := by
  unfold latest
  cases fate h.tree p with
  | kept slot file => exact Nat.le_of_eq (by rw [slot, file])
  | broke breaks _ _ => exact absurd breaks (not_breaksOff h.calm)
  | forgot fresh slot file =>
      have none : (e.after.slotAt p).mtime = 0 := by
        rw [slot]
        rfl
      exact Nat.le_of_eq (by rw [none, file, h.unwritten fresh])
  | wrote bytes time writes slot file =>
      obtain ⟨later, above, -⟩ := writes.later h.tree
      rw [slot, file, Option.elim_some, Nat.max_self]
      refine Nat.max_le.2 ⟨Nat.le_of_lt later, ?_⟩
      cases before : e.before.datedAt p with
      | none => exact Nat.zero_le _
      | some file' => exact Nat.le_of_lt (above h.calm _ _ before)
  | removed removes slot file =>
      have written : 1 ≤ (e.before.slotAt p).version := by
        refine Nat.one_le_iff_ne_zero.2 fun none => kept ?_
        rwa [none] at removes
      rw [slot, file, Option.elim_none]
      refine Nat.max_le.2 ⟨Nat.le_max_left _ _, ?_⟩
      refine Nat.le_trans ?_ (Nat.le_max_left _ _)
      cases before : e.before.datedAt p with
      | none => exact Nat.zero_le _
      | some file' => exact h.covers written _ _ before

theorem Writes.latest_lt (h : Settled p e.before) (writes : e.Writes p t) :
    latest p e.before < t := by
  obtain ⟨later, above, -⟩ := writes.later h.tree
  refine Nat.max_lt.2 ⟨later, ?_⟩
  cases before : e.before.datedAt p with
  | none => exact Nat.zero_lt_of_lt later
  | some file => exact above h.calm _ _ before

theorem Loads.eq_latest (tree : e.before.volume.disk.IsTree) (loads : e.Loads p t) :
    t = latest p e.before := by
  obtain ⟨bytes, time, found, rfl⟩ := loads.time_eq tree
  rw [latest, found, Option.elim_some, Nat.max_comm]

/-- The file of a place that was written keeps its time until the next write. -/
theorem dated_after (h : Settled p e.before) (written : 1 ≤ (e.before.slotAt p).version)
    (kept : (∀ time, ¬ e.Writes p time) ∧ ∀ number, ¬ e.Removes p number) :
    e.after.slotAt p = e.before.slotAt p ∧ e.after.datedAt p = e.before.datedAt p := by
  cases fate h.tree p with
  | kept slot file => exact ⟨slot, file⟩
  | forgot fresh _ _ => omega
  | wrote _ time writes _ _ => exact absurd writes (kept.1 time)
  | removed removes _ _ => exact absurd removes (kept.2 _)
  | broke breaks _ _ => exact absurd breaks (not_breaksOff h.calm)

end Entry

/-! ### Times in a log -/

/-- How the times of one place that are reported in a log are ordered. -/
structure Timely (s : Store) (log : List Entry) : Prop where
  /-- Writes are later than writes before them. -/
  writes : ∀ e between e' p t t', Follows log e between e' → e.Writes p t → e'.Writes p t' → t < t'
  /-- Writes are later than loads before them, unless the file of the load was deleted by the first
  write to its place. -/
  loads : s.volume.Calm → ∀ e between e' p t t', Follows log e between e' →
    e.Loads p t → e'.Writes p t' → t < t' ∨ ∃ d ∈ between, d.Removes p 1
  /-- Loads have the time of the write in front of them. -/
  loaded : s.volume.Calm → ∀ e between e' p t t', Follows log e between e' →
    e.Writes p t → e'.Loads p t' →
    (∀ d ∈ between, (∀ time, ¬ d.Writes p time) ∧ ∀ number, ¬ d.Removes p number) → t' = t

theorem unwritten_before (fresh : s.slots = []) (tree : s.volume.disk.IsTree)
    (mem : e ∈ s.log ops) : e.before.volume.disk.IsTree ∧ Unwritten p e.before :=
  Store.before_of_log (P := fun s => s.volume.disk.IsTree ∧ Unwritten p s)
    ⟨tree, unwritten_of_fresh fresh p⟩
    (fun _ h => ⟨Entry.tree_after h.1, Entry.unwritten_after h.1 h.2⟩) mem

theorem settled_before (fresh : s.slots = []) (tree : s.volume.disk.IsTree)
    (calm : s.volume.Calm) (mem : e ∈ s.log ops) : Settled p e.before :=
  Store.before_of_log (P := Settled p) (settled_of_fresh fresh tree calm p)
    (fun _ h => Entry.settled_after h) mem

theorem mtime_le_behind (tree : s.volume.disk.IsTree) (unwritten : Unwritten p s)
    (ops : List Operation) :
    (s.behind ops).volume.disk.IsTree ∧ (s.slotAt p).mtime ≤ ((s.behind ops).slotAt p).mtime := by
  have all : (s.behind ops).volume.disk.IsTree ∧ Unwritten p (s.behind ops) ∧
      (s.slotAt p).mtime ≤ ((s.behind ops).slotAt p).mtime :=
    Store.behind_of_log (P := fun s' => s'.volume.disk.IsTree ∧ Unwritten p s' ∧
        (s.slotAt p).mtime ≤ (s'.slotAt p).mtime) ⟨tree, unwritten, Nat.le_refl _⟩
      fun _ _ h => ⟨Entry.tree_after h.1, Entry.unwritten_after h.1 h.2.1,
        Nat.le_trans h.2.2 (Entry.mtime_le h.1 h.2.1)⟩
  exact ⟨all.1, all.2.2⟩

theorem latest_le_behind (h : Settled p s) (kept : ∀ d ∈ s.log ops, ¬ d.Removes p 1) :
    Settled p (s.behind ops) ∧ latest p s ≤ latest p (s.behind ops) :=
  Store.behind_of_log (P := fun s' => Settled p s' ∧ latest p s ≤ latest p s')
    ⟨h, Nat.le_refl _⟩
    fun d mem h => ⟨Entry.settled_after h.1, Nat.le_trans h.2 (Entry.latest_le h.1 (kept d mem))⟩

theorem dated_behind (h : Settled p s) (written : 1 ≤ (s.slotAt p).version)
    (kept : ∀ d ∈ s.log ops, (∀ time, ¬ d.Writes p time) ∧ ∀ number, ¬ d.Removes p number) :
    Settled p (s.behind ops) ∧ (s.behind ops).slotAt p = s.slotAt p ∧
      (s.behind ops).datedAt p = s.datedAt p :=
  Store.behind_of_log (P := fun s' => Settled p s' ∧ s'.slotAt p = s.slotAt p ∧
      s'.datedAt p = s.datedAt p) ⟨h, rfl, rfl⟩
    fun d mem h => by
      obtain ⟨settled, slot, file⟩ := h
      obtain ⟨slot', file'⟩ := Entry.dated_after settled (by rwa [slot]) (kept d mem)
      exact ⟨Entry.settled_after settled, slot'.trans slot, file'.trans file⟩

theorem Follows.write_lt_write (h : Follows (s.log ops) e between e') (fresh : s.slots = [])
    (tree : s.volume.disk.IsTree) (writes : e.Writes p t) (writes' : e'.Writes p t') : t < t' := by
  obtain ⟨mem, more, -, before⟩ := h.exists_ops
  obtain ⟨here, unwritten⟩ := unwritten_before (p := p) fresh tree mem
  obtain ⟨there, grows⟩ :=
    mtime_le_behind (Entry.tree_after here) (Entry.unwritten_after here unwritten) more
  rw [← before] at there grows
  calc t = (e.after.slotAt p).mtime := (writes.later here).2.2.1.symm
    _ ≤ (e'.before.slotAt p).mtime := grows
    _ < t' := (writes'.later there).1

theorem Follows.load_lt_write (h : Follows (s.log ops) e between e') (fresh : s.slots = [])
    (tree : s.volume.disk.IsTree) (calm : s.volume.Calm) (loads : e.Loads p t)
    (writes : e'.Writes p t') (kept : ∀ d ∈ between, ¬ d.Removes p 1) : t < t' := by
  obtain ⟨mem, more, rfl, before⟩ := h.exists_ops
  have here := settled_before (p := p) fresh tree calm mem
  obtain ⟨there, grows⟩ := latest_le_behind (Entry.settled_after here) kept
  rw [← before] at there grows
  calc t = latest p e.before := loads.eq_latest here.tree
    _ ≤ latest p e.after := Entry.latest_le here loads.not_removes
    _ ≤ latest p e'.before := grows
    _ < t' := writes.latest_lt there

theorem Follows.load_eq_write (h : Follows (s.log ops) e between e') (fresh : s.slots = [])
    (tree : s.volume.disk.IsTree) (calm : s.volume.Calm) (writes : e.Writes p t)
    (loads : e'.Loads p t')
    (kept : ∀ d ∈ between, (∀ time, ¬ d.Writes p time) ∧ ∀ number, ¬ d.Removes p number) :
    t' = t := by
  obtain ⟨mem, more, rfl, before⟩ := h.exists_ops
  have here := settled_before (p := p) fresh tree calm mem
  obtain ⟨-, -, time, written, bytes, file⟩ := writes.later here.tree
  obtain ⟨there, slot, file'⟩ := dated_behind (Entry.settled_after here) written kept
  rw [← before] at there slot file'
  obtain ⟨bytes', time', found, rfl⟩ := loads.time_eq there.tree
  rw [file', file, Option.some.injEq, Prod.mk.injEq] at found
  rw [slot, time, ← found.2, Nat.max_self]

/-- A store with one file, which has the time at which the clock stands. -/
def standingStore : Store :=
  ⟨"", 64, "build", [], .ofDisk ⟨[(["a"], .file [49] 9)]⟩ 9⟩

theorem isTree_standing : standingStore.volume.disk.IsTree :=
  Files.Disk.isTree_single "a" (.file [49] 9)

theorem calm_standing : standingStore.volume.Calm := by
  intro turn mem
  cases mem

/-- Two saves between two loads, and a file that cannot be made since it is there. -/
def savingOps : List Operation :=
  [.load "a", .save "a" "xy" none, .create "a", .save "a" "z" (some 1), .load "a"]

end Workbench.Session.Loader
