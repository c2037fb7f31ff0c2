import Workbench.Proofs.Loader.Solo

/-!
# What an operation does to a store

Whatever calls fail on the way, an operation ends in one of six ways. Each says what is told, which
slot the place of the operation then has, and which file is there with which time. Other slots and
other files never change.

A call that fails leaves the disk alone, so most failures leave everything as it was. The exception
is a write that goes through before the time of its file can be told or set.
-/

namespace Workbench.Files.Volume

/-! ### Calls that can fail -/

theorem disk_turn (v : Volume) : v.turn.1.disk = v.disk := by
  unfold turn
  split <;> rfl

theorem disk_query {α : Type} (v : Volume) (look : Disk → Except Fault α) :
    (v.query look).2.disk = v.disk := by
  have same := disk_turn v
  unfold query
  split <;> simp_all

/-- What a call tells is there. -/
theorem look_of_query {α : Type} {v : Volume} {look : Disk → Except Fault α} {a : α}
    (h : (v.query look).1 = .ok a) : look v.disk = .ok a := by
  have same := disk_turn v
  unfold query at h
  split at h
  · cases h
  · next v' turns =>
      rw [turns] at same
      exact same ▸ h

/-- A change is made at some time, or nothing changes. -/
theorem change_cases (v : Volume) (act : Disk → Nat → Except Fault Disk) :
    (∃ now, (v.change act).1 = .ok () ∧ act v.disk now = .ok (v.change act).2.disk) ∨
      ∃ fault, (v.change act).1 = .error fault ∧ (v.change act).2.disk = v.disk := by
  have same := disk_turn v
  unfold change
  split
  · next v' fault turns =>
      rw [turns] at same
      exact .inr ⟨fault, rfl, same⟩
  · next v' turns =>
      rw [turns] at same
      dsimp only at same
      cases acts : act v'.disk v'.now with
      | error fault => exact .inr ⟨fault, rfl, same⟩
      | ok d => exact .inl ⟨v'.now, rfl, same ▸ acts⟩

end Workbench.Files.Volume

namespace Workbench.Session

open Files (Fault Place Node Disk Volume)
open Files.Disk (SetsDated)
open Wasm (Bytes)

/-! ### Slots in a table -/

namespace Slot

variable {place q : Place} {slot : Slot}

theorem lookup_cons_self (slots : List (Place × Slot)) :
    ((place, slot) :: slots).lookup place = some slot := by
  rw [List.lookup_cons, beq_self_eq_true]

theorem lookup_cons_of_ne (apart : q ≠ place) (slots : List (Place × Slot)) :
    ((place, slot) :: slots).lookup q = slots.lookup q := by
  rw [List.lookup_cons, beq_false_of_ne apart]

theorem find_eq_lookup (place : Place) (slots : List (Place × Slot)) :
    find place slots = (slots.lookup place).getD fresh := by
  induction slots with
  | nil => rfl
  | cons e rest ih =>
      obtain ⟨p, slot⟩ := e
      by_cases here : p = place
      · subst here
        rw [lookup_cons_self, find, if_pos rfl, Option.getD_some]
      · rw [lookup_cons_of_ne (Ne.symm here), find, if_neg here, ih]

theorem lookup_set_self (slots : List (Place × Slot)) :
    (set place slot slots).lookup place = some slot := by
  induction slots with
  | nil => exact lookup_cons_self []
  | cons e rest ih =>
      obtain ⟨p, old⟩ := e
      by_cases here : p = place
      · subst here
        rw [set, if_pos rfl, lookup_cons_self]
      · rw [set, if_neg here, lookup_cons_of_ne (Ne.symm here), ih]

theorem lookup_set_of_ne (apart : q ≠ place) (slots : List (Place × Slot)) :
    (set place slot slots).lookup q = slots.lookup q := by
  induction slots with
  | nil => exact lookup_cons_of_ne apart []
  | cons e rest ih =>
      obtain ⟨p, old⟩ := e
      by_cases here : p = place
      · subst here
        rw [set, if_pos rfl, lookup_cons_of_ne apart, lookup_cons_of_ne apart]
      · rw [set, if_neg here, List.lookup_cons, List.lookup_cons, ih]

theorem lookup_drop_self (slots : List (Place × Slot)) :
    (drop place slots).lookup place = none := by
  rw [List.lookup_eq_none_iff]
  intro e mem
  have kept : e.1 ≠ place := by simpa using (List.mem_filter.1 mem).2
  exact bne_iff_ne.2 (Ne.symm kept)

theorem lookup_drop_of_ne (apart : q ≠ place) (slots : List (Place × Slot)) :
    (drop place slots).lookup q = slots.lookup q := by
  induction slots with
  | nil => rfl
  | cons e rest ih =>
      obtain ⟨p, old⟩ := e
      by_cases here : p = place
      · subst here
        have dropped : drop p ((p, old) :: rest) = drop p rest := by simp [drop]
        rw [dropped, lookup_cons_of_ne apart, ih]
      · have kept : drop place ((p, old) :: rest) = (p, old) :: drop place rest := by
          simp [drop, here]
        rw [kept, List.lookup_cons, List.lookup_cons, ih]

theorem mem_keys_iff {slots : List (Place × Slot)} :
    place ∈ slots.map (·.1) ↔ ∃ slot, slots.lookup place = some slot := by
  rw [← Option.isSome_iff_exists, List.lookup_isSome_iff, List.mem_map]
  constructor
  · rintro ⟨e, mem, rfl⟩
    exact ⟨e, mem, beq_self_eq_true e.1⟩
  · rintro ⟨e, mem, same⟩
    exact ⟨e, mem, (eq_of_beq same).symm⟩

end Slot

/-! ### What becomes of a store -/

namespace Store

/-- What is remembered of a place. -/
def slotAt (s : Store) (place : Place) : Slot :=
  Slot.find place s.slots

/-- The bytes and the time of the file at a place. -/
def datedAt (s : Store) (place : Place) : Option (Bytes × Nat) :=
  s.volume.disk.datedAt place

/-- The places that have a slot. -/
def tracked (s : Store) : List Place :=
  s.slots.map (·.1)

theorem slotAt_eq_lookup (s : Store) (place : Place) :
    s.slotAt place = (s.slots.lookup place).getD .fresh :=
  Slot.find_eq_lookup place s.slots

theorem slotAt_congr {s s' : Store} {place : Place}
    (h : s'.slots.lookup place = s.slots.lookup place) : s'.slotAt place = s.slotAt place := by
  rw [slotAt_eq_lookup, h, ← slotAt_eq_lookup]

theorem mem_tracked_iff {s : Store} {place : Place} :
    place ∈ s.tracked ↔ ∃ slot, s.slots.lookup place = some slot :=
  Slot.mem_keys_iff

end Store

namespace Loader

/-- A place has a given slot, or none, and a given file, or none, and nothing else has changed but
that there can be more directories. -/
structure Becomes (place : Place) (slot : Option Slot) (file : Option (Bytes × Nat))
    (s s' : Store) : Prop where
  slot : s'.slots.lookup place = slot
  slots : ∀ q, q ≠ place → s'.slots.lookup q = s.slots.lookup q
  files : SetsDated place file s.volume.disk s'.volume.disk
  root : s'.root = s.root
  limit : s'.maxFileSize = s.maxFileSize
  calm : s.volume.Calm → s'.volume.Calm

section

variable {place : Place} {slot : Option Slot} {file file' : Option (Bytes × Nat)} {s s₁ : Store}

theorem becomes_taken (tree : s.volume.disk.IsTree) (place : Place) :
    Becomes place (some (s.slotAt place)) (s.datedAt place) s
      { s with slots := Slot.set place (Slot.find place s.slots) s.slots } where
  slot := Slot.lookup_set_self s.slots
  slots _ apart := Slot.lookup_set_of_ne apart s.slots
  files := .refl tree place
  root := rfl
  limit := rfl
  calm := id

theorem Becomes.put (h : Becomes place slot file s s₁) (slot' : Slot) :
    Becomes place (some slot') file s { s₁ with slots := Slot.set place slot' s₁.slots } where
  slot := Slot.lookup_set_self s₁.slots
  slots q apart := (Slot.lookup_set_of_ne apart s₁.slots).trans (h.slots q apart)
  files := h.files
  root := h.root
  limit := h.limit
  calm := h.calm

theorem Becomes.drop (h : Becomes place slot file s s₁) :
    Becomes place none file s { s₁ with slots := Slot.drop place s₁.slots } where
  slot := Slot.lookup_drop_self s₁.slots
  slots q apart := (Slot.lookup_drop_of_ne apart s₁.slots).trans (h.slots q apart)
  files := h.files
  root := h.root
  limit := h.limit
  calm := h.calm

theorem Becomes.shown (h : Becomes place slot file s s₁) : s₁.shown = s.shown := by
  funext q
  rw [Store.shown, Store.shown, h.root]

theorem Becomes.datedAt (h : Becomes place slot file s s₁) : s₁.datedAt place = file :=
  h.files.here

theorem Becomes.datedAt_of_ne (h : Becomes place slot file s s₁) {q : Place} (apart : q ≠ place) :
    s₁.datedAt q = s.datedAt q :=
  h.files.others q apart

theorem Becomes.slotAt (h : Becomes place slot file s s₁) :
    s₁.slotAt place = slot.getD .fresh := by
  rw [Store.slotAt_eq_lookup, h.slot]

theorem Becomes.slotAt_some {slot : Slot} (h : Becomes place (some slot) file s s₁) :
    s₁.slotAt place = slot :=
  h.slotAt

theorem Becomes.query {α : Type} (h : Becomes place slot file s s₁)
    (look : Disk → Except Fault α) :
    Becomes place slot file s { s₁ with volume := (s₁.volume.query look).2 } where
  slot := h.slot
  slots := h.slots
  files := by
    show SetsDated place file s.volume.disk (s₁.volume.query look).2.disk
    rw [Volume.disk_query]
    exact h.files
  root := h.root
  limit := h.limit
  calm calm := ((h.calm calm).query look).2.2

/-- A change at the place, or elsewhere, is made or not. -/
theorem Becomes.change (h : Becomes place slot file s s₁)
    (act : Disk → Nat → Except Fault Disk) :
    (∃ now, (s₁.volume.change act).1 = .ok () ∧
        act s₁.volume.disk now = .ok (s₁.volume.change act).2.disk ∧
        ∀ file', SetsDated place file' s₁.volume.disk (s₁.volume.change act).2.disk →
          Becomes place slot file' s { s₁ with volume := (s₁.volume.change act).2 }) ∨
      ∃ fault, (s₁.volume.change act).1 = .error fault ∧
        Becomes place slot file s { s₁ with volume := (s₁.volume.change act).2 } := by
  have calm : s.volume.Calm → (s₁.volume.change act).2.Calm :=
    fun calm => ((h.calm calm).change act).1
  rcases s₁.volume.change_cases act with ⟨now, told, acts⟩ | ⟨fault, told, same⟩
  · exact .inl ⟨now, told, acts, fun _ sets =>
      ⟨h.slot, h.slots, h.files.trans sets, h.root, h.limit, calm⟩⟩
  · refine .inr ⟨fault, told, h.slot, h.slots, ?_, h.root, h.limit, calm⟩
    show SetsDated place file s.volume.disk (s₁.volume.change act).2.disk
    rw [same]
    exact h.files

end

/-! ### The time of a file that was just written -/

section

variable {place : Place} {slot : Option Slot} {bytes : Bytes} {time : Nat} {s s₁ : Store}

/-- The time of a file can be made later, unless a call fails by itself. -/
theorem Becomes.advanceTime (h : Becomes place slot (some (bytes, time)) s s₁)
    (proper : place ≠ []) (previous : Nat) :
    (∃ mtime s', advanceTime place previous s₁ = (.ok mtime, s') ∧ previous < mtime ∧
        Becomes place slot (some (bytes, mtime)) s s') ∨
      ∃ failure s', advanceTime place previous s₁ = (.error failure, s') ∧ ¬ s₁.volume.Calm ∧
        Becomes place slot (some (bytes, time)) s s' := by
  have tree := h.files.tree
  have there := Files.Disk.datedAt_eq_some_iff.1 h.files.here
  have looked := h.query (·.stat place)
  have told : s₁.volume.Calm →
      (s₁.volume.query (·.stat place)).1 = .ok (.file bytes time) := by
    intro calm
    rw [(calm.query (·.stat place)).1]
    exact tree.stat_eq_ok_iff.2 there
  simp only [Loader.advanceTime, bind_apply, query_apply]
  cases found : (s₁.volume.query (·.stat place)).1 with
  | error fault =>
      have loud : ¬ s₁.volume.Calm := by
        intro calm
        rw [told calm] at found
        cases found
      cases fault <;> exact .inr ⟨_, _, rfl, loud, looked⟩
  | ok node =>
      have same : node = .file bytes time := by
        have := tree.stat_eq_ok_iff.1 (Volume.look_of_query found)
        rw [there, Option.some.injEq] at this
        exact this.symm
      subst same
      by_cases later : previous < (Node.file bytes time).modified
      · simp only [later, if_true, pure_apply]
        exact .inl ⟨_, _, rfl, later, looked⟩
      · simp only [later, if_false, bind_apply, change_apply, orFail_apply]
        rcases looked.change fun d _ => d.setModified place (previous + 1) with
          ⟨now, told', acts, sets⟩ | ⟨fault, told', same⟩
        · simp only [told', pure_apply]
          obtain ⟨bytes', time', dated, sets'⟩ :=
            looked.files.tree.setModified_dated proper acts
          rw [looked.files.here, Option.some.injEq, Prod.mk.injEq] at dated
          obtain ⟨rfl, rfl⟩ := dated
          exact .inl ⟨_, _, rfl, Nat.lt_succ_self previous, sets _ sets'⟩
        · simp only [told']
          refine .inr ⟨_, _, rfl, fun calm => ?_, same⟩
          -- On a disk that does not fail by itself the time of a file can be set.
          have file : (s₁.volume.query (·.stat place)).2.disk.fileAt place = some bytes := by
            rw [Files.Disk.fileAt_eq_map, looked.files.here]
            rfl
          obtain ⟨d, ok⟩ := looked.files.tree.setModified_of_file file (previous + 1)
          obtain ⟨-, now, ⟨fault', acts, -, -⟩ | ⟨d', -, told'', -⟩⟩ :=
            (calm.query (·.stat place)).2.2.change fun d _ => d.setModified place (previous + 1)
          · cases ok.symm.trans acts
          · cases told'.symm.trans told''

end

/-! ### Ways to end -/

end Loader

/-- Whether a failure can leave a slot behind although nothing was ever written to its place and
nothing is there. -/
def Failure.lingers : Failure → Bool
  | .conflict .. | .alreadyExists .. | .io .. => true
  | _ => false

namespace Loader

/-- How an operation at a place can end that takes a store to another one. -/
inductive Effect (o : Operation) (place : Place) (s : Store) (answer : Except Failure Reply)
    (s' : Store) : Prop
  | loaded (bytes : Bytes) (time : Nat) (text : String) (loads : o.isLoad = true)
      (found : s.datedAt place = some (bytes, time)) (spells : text.toUTF8.toList = bytes)
      (told : answer = .ok (.content ⟨place.text, text, max time (s.slotAt place).mtime,
        text.utf8ByteSize, (s.slotAt place).version⟩))
      (becomes : Becomes place (some (s.slotAt place)) (some (bytes, time)) s s')
  | written (bytes : Bytes) (mtime : Nat) (leaves : o.leaves = some bytes)
      (later : (s.slotAt place).mtime < mtime)
      (above : s.volume.Calm → ∀ bytes' time, s.datedAt place = some (bytes', time) → time < mtime)
      (told : answer = .ok (.version ⟨place.text, mtime, bytes.length,
        (s.slotAt place).version + 1⟩))
      (becomes : Becomes place (some ⟨(s.slotAt place).version + 1, mtime⟩) (some (bytes, mtime))
        s s')
  | removed (deletes : o.isLoad = false) (leaves : o.leaves = none)
      (found : s.datedAt place ≠ none)
      (told : answer = .ok (.version ⟨place.text, (s.slotAt place).mtime, 0,
        (s.slotAt place).version + 1⟩))
      (becomes : Becomes place
        (some { s.slotAt place with version := (s.slotAt place).version + 1 }) none s s')
  /-- There is no file, and its slot is given back. -/
  | forgotten (fresh : (s.slotAt place).version = 0) (told : answer = .error (.notFound o.path))
      (becomes : Becomes place none (s.datedAt place) s s')
  | refused (failure : Failure) (told : answer = .error failure)
      (lasting : (s.slotAt place).version = 0 → s.datedAt place = none → failure.lingers = true)
      (becomes : Becomes place (some (s.slotAt place)) (s.datedAt place) s s')
  /-- The write goes through, and then the time of the file cannot be told or set. -/
  | brokenOff (bytes : Bytes) (time previous : Nat) (s₁ : Store) (failure : Failure)
      (leaves : o.leaves = some bytes) (told : answer = .error failure)
      (wrote : Becomes place (some (s.slotAt place)) (some (bytes, time)) s s₁)
      (loud : ¬ s₁.volume.Calm) (fails : advanceTime place previous s₁ = (.error failure, s'))
      (becomes : Becomes place (some (s.slotAt place)) (some (bytes, time)) s s')

section

variable {o : Operation} {place : Place} {s s₁ : Store} {file : Option (Bytes × Nat)}

/-- An operation that fails before it has written anything. -/
theorem effect_fail (failure : Failure)
    (lasting : (s.slotAt place).version = 0 → s.datedAt place = none → failure.lingers = true)
    (h : Becomes place (some (s.slotAt place)) (s.datedAt place) s s₁) :
    Effect o place s ((Plan.fail failure).run place s₁).1 ((Plan.fail failure).run place s₁).2 :=
  .refused failure rfl lasting h

theorem effect_missing (h : Becomes place (some (s.slotAt place)) (s.datedAt place) s s₁) :
    Effect o place s ((Plan.missing o.path (s.slotAt place)).run place s₁).1
      ((Plan.missing o.path (s.slotAt place)).run place s₁).2 := by
  unfold Plan.missing
  split
  · next fresh => exact .forgotten fresh rfl h.drop
  · next written => exact effect_fail _ (fun fresh => absurd fresh written) h

/-- A change is a failure, or the rest of the plan follows it. -/
theorem Becomes.write {slot : Option Slot} (h : Becomes place slot file s s₁)
    (shown : Place → String) (at_ : Place) (act : Disk → Nat → Except Fault Disk) (next : Plan) :
    (∃ fault s₂, (Plan.write shown at_ act next).run place s₁ =
        (.error (.io (shown at_) fault), s₂) ∧ Becomes place slot file s s₂) ∨
      ∃ now s₂, (Plan.write shown at_ act next).run place s₁ = next.run place s₂ ∧
        act s₁.volume.disk now = .ok s₂.volume.disk ∧
        ∀ file', SetsDated place file' s₁.volume.disk s₂.volume.disk →
          Becomes place slot file' s s₂ := by
  simp only [Plan.write, Plan.run]
  rcases h.change act with ⟨now, told, acts, sets⟩ | ⟨fault, told, same⟩
  · refine .inr ⟨now, { s₁ with volume := (s₁.volume.change act).2 }, ?_, acts, sets⟩
    rw [told]
  · refine .inl ⟨fault, _, ?_, same⟩
    rw [told]
    rfl

/-- The end of a plan that has written its file. -/
theorem Becomes.counted {bytes : Bytes} {time : Nat}
    (h : Becomes place (some (s.slotAt place)) (some (bytes, time)) s s₁) (proper : place ≠ [])
    (leaves : o.leaves = some bytes) {previous : Nat}
    (least : (s.slotAt place).mtime ≤ previous)
    (above : s.volume.Calm → ∀ bytes' time, s.datedAt place = some (bytes', time) →
      time ≤ previous)
    {result : Except Failure Reply × Store}
    (runs : result = (Plan.advance s.shown place previous fun mtime =>
      .commit ⟨(s.slotAt place).version + 1, mtime⟩
        ⟨place.text, mtime, bytes.length, (s.slotAt place).version + 1⟩).run place s₁) :
    Effect o place s result.1 result.2 := by
  subst runs
  rw [run_advance s.shown s₁ place h.shown]
  rcases h.advanceTime proper previous with
    ⟨mtime, s', advances, later, becomes⟩ | ⟨failure, s', fails, loud, becomes⟩
  · rw [advances]
    refine .written bytes mtime leaves (Nat.lt_of_le_of_lt least later) ?_ rfl (becomes.put _)
    exact fun calm bytes' time' there => Nat.lt_of_le_of_lt (above calm bytes' time' there) later
  · rw [fails]
    exact .brokenOff bytes time previous s₁ failure leaves rfl h loud fails becomes

theorem effect_load (path : String)
    (h : Becomes place (some (s.slotAt place)) (s.datedAt place) s s₁) {limit : Nat}
    {result : Except Failure Reply × Store}
    (runs : result = (Plan.load s.shown limit place path (s.slotAt place)).run place s₁) :
    Effect (.load path) place s result.1 result.2 := by
  subst runs
  have looked := h.query (·.stat place)
  simp only [Plan.load, Plan.run]
  cases found : (s₁.volume.query (·.stat place)).1 with
  | error fault =>
      cases fault
      case missing => exact effect_missing (o := .load path) looked
      all_goals exact effect_fail _ (fun _ _ => rfl) looked
  | ok node =>
      have there := Files.Disk.node?_of_stat (Volume.look_of_query found)
      cases node with
      | directory => exact effect_missing (o := .load path) looked
      | file bytes time =>
          have dated : s.datedAt place = some (bytes, time) := by
            rw [← h.datedAt]
            exact Files.Disk.datedAt_eq_some_iff.2 there
          dsimp only
          split
          · refine effect_fail _ (fun _ none => ?_) looked
            rw [dated] at none
            cases none
          · have read := looked.query (·.readText place)
            simp only [Plan.run]
            cases text : ((s₁.volume.query (·.stat place)).2.query (·.readText place)).1 with
            | error fault => exact effect_fail _ (fun _ _ => rfl) read
            | ok text' =>
                have spells := Files.Disk.fileAt_of_readText (Volume.look_of_query text)
                rw [Files.Disk.fileAt_eq_map, looked.files.here, dated, Option.map_some,
                  Option.some.injEq] at spells
                exact .loaded bytes time text' rfl dated spells.symm rfl (dated ▸ read)

/-- Directories are made, the file is written and its time made later than the previous one. -/
theorem effect_store (proper : place ≠ []) (path content : String) (base : Option Nat)
    (h : Becomes place (some (s.slotAt place)) (s.datedAt place) s s₁) {previous : Nat}
    (least : (s.slotAt place).mtime ≤ previous)
    (above : s.volume.Calm → ∀ bytes time, s.datedAt place = some (bytes, time) → time ≤ previous)
    {result : Except Failure Reply × Store}
    (runs : result = (Plan.write s.shown place.dropLast
      (fun d _ => d.makeDirectories place.dropLast) <|
        .write s.shown place (fun d now => d.write place content.toUTF8.toList now) <|
          .advance s.shown place previous fun mtime =>
            .commit ⟨(s.slotAt place).version + 1, mtime⟩
              ⟨place.text, mtime, content.toUTF8.toList.length,
                (s.slotAt place).version + 1⟩).run place s₁) :
    Effect (.save path content base) place s result.1 result.2 := by
  subst runs
  rcases h.write s.shown place.dropLast (fun d _ => d.makeDirectories place.dropLast) _ with
    ⟨fault, s₂, runs, failed⟩ | ⟨now, s₂, runs, acts, made⟩
  · rw [runs]
    exact .refused _ rfl (fun _ _ => rfl) failed
  · have made := made _ (h.files.tree.makeDirectories_dated acts place)
    rw [h.files.here] at made
    rw [runs]
    rcases made.write s.shown place (fun d now => d.write place content.toUTF8.toList now) _ with
      ⟨fault, s₃, runs', failed⟩ | ⟨now', s₃, runs', acts', wrote⟩
    · rw [runs']
      exact .refused _ rfl (fun _ _ => rfl) failed
    · have wrote := wrote _ (made.files.tree.write_dated proper acts')
      exact wrote.counted proper rfl least above runs'

theorem effect_replace (proper : place ≠ []) (path content : String) (base : Option Nat)
    (h : Becomes place (some (s.slotAt place)) (s.datedAt place) s s₁)
    {result : Except Failure Reply × Store}
    (runs : result = (Plan.replace s.shown place content.toUTF8.toList (s.slotAt place)).run
      place s₁) :
    Effect (.save path content base) place s result.1 result.2 := by
  have looked := h.query (·.stat place)
  simp only [Plan.replace, Plan.run] at runs
  cases found : (s₁.volume.query (·.stat place)).1 with
  | ok node =>
      rw [found] at runs
      refine effect_store proper path content base looked (Nat.le_max_right _ _) ?_ runs
      intro _ bytes time dated
      have there := Files.Disk.datedAt_eq_some_iff.1 (h.datedAt.trans dated)
      rw [Files.Disk.node?_of_stat (Volume.look_of_query found), Option.some.injEq] at there
      rw [there]
      exact Nat.le_max_left _ _
  | error fault =>
      rw [found] at runs
      refine effect_store proper path content base looked (Nat.le_refl _) ?_ runs
      intro calm bytes time dated
      -- Without a fault of the disk the file would have been found.
      have there := Files.Disk.datedAt_eq_some_iff.1 (h.datedAt.trans dated)
      rw [((h.calm calm).query (·.stat place)).1, h.files.tree.stat_eq_ok_iff.2 there] at found
      cases found

theorem effect_save (proper : place ≠ []) (path content : String) (base : Option Nat)
    (h : Becomes place (some (s.slotAt place)) (s.datedAt place) s s₁)
    {result : Except Failure Reply × Store}
    (runs : result = (Plan.save s.shown place path content base (s.slotAt place)).run place s₁) :
    Effect (.save path content base) place s result.1 result.2 := by
  cases base with
  | none => exact effect_replace proper path content none h runs
  | some expected =>
      simp only [Plan.save] at runs
      split at runs
      · subst runs
        exact effect_fail _ (fun _ _ => rfl) h
      · exact effect_replace proper path content (some expected) h runs

theorem effect_create (proper : place ≠ []) (path : String)
    (h : Becomes place (some (s.slotAt place)) (s.datedAt place) s s₁)
    {result : Except Failure Reply × Store}
    (runs : result = (Plan.create s.shown place path (s.slotAt place)).run place s₁) :
    Effect (.create path) place s result.1 result.2 := by
  subst runs
  unfold Plan.create
  rcases h.write s.shown place.dropLast (fun d _ => d.makeDirectories place.dropLast) _ with
    ⟨fault, s₂, runs, failed⟩ | ⟨now, s₂, runs, acts, made⟩
  · rw [runs]
    exact .refused _ rfl (fun _ _ => rfl) failed
  · have made := made _ (h.files.tree.makeDirectories_dated acts place)
    rw [h.files.here] at made
    rw [runs]
    simp only [Plan.run]
    rcases made.change fun d now => d.createNew place now with
      ⟨now', told, acts', created⟩ | ⟨fault, told, failed⟩
    · obtain ⟨free, sets⟩ := made.files.tree.createNew_dated proper acts'
      have created := created _ sets
      rw [made.files.here] at free
      have leaves : (Operation.create path).leaves = some [] := rfl
      refine created.counted proper leaves (Nat.le_refl _) ?_ (by rw [told]; rfl)
      intro _ bytes time dated
      rw [free] at dated
      cases dated
    · rw [told]
      cases fault <;> exact effect_fail _ (fun _ _ => rfl) failed

theorem effect_delete (proper : place ≠ []) (path : String)
    (h : Becomes place (some (s.slotAt place)) (s.datedAt place) s s₁)
    {result : Except Failure Reply × Store}
    (runs : result = (Plan.delete s.shown place path (s.slotAt place)).run place s₁) :
    Effect (.delete path) place s result.1 result.2 := by
  subst runs
  simp only [Plan.delete, Plan.run]
  rcases h.change fun d _ => d.removeFile place with
    ⟨now, told, acts, removed⟩ | ⟨fault, told, same⟩
  · obtain ⟨⟨content, modified, found⟩, sets⟩ := h.files.tree.removeFile_dated proper acts
    rw [h.files.here] at found
    rw [told]
    exact .removed rfl rfl (by simp [found]) rfl ((removed _ sets).put _)
  · rw [told]
    cases fault
    case missing => exact effect_missing (o := .delete path) same
    all_goals exact effect_fail _ (fun _ _ => rfl) same

end

/-- An operation whose place can be used ends in one of these ways. -/
theorem Operation.effect (o : Operation) {s : Store} {place : Place}
    (tree : s.volume.disk.IsTree) (accepts : o.accept s.maxFileSize = .ok place) :
    Effect o place s (o.action s).1 (o.action s).2 := by
  have proper : place ≠ [] := Shelf.confine?_ne_nil (Shelf.place?_of_accept accepts)
  have taken := becomes_taken tree place
  have performs := o.action_eq_perform s
  simp only [perform, accepts] at performs
  cases o with
  | load path => exact effect_load path taken performs
  | save path content base => exact effect_save proper path content base taken performs
  | create path => exact effect_create proper path taken performs
  | delete path => exact effect_delete proper path taken performs

/-- An operation whose place cannot be used does nothing. -/
theorem Operation.action_of_refused (o : Operation) {s : Store} {failure : Failure}
    (refuses : o.accept s.maxFileSize = .error failure) : o.action s = (.error failure, s) := by
  rw [o.action_eq_perform, perform, refuses]

/-! ### What is told -/

namespace Effect

variable {o : Operation} {place : Place} {s s' : Store} {answer : Except Failure Reply}

/-- What is loaded is there. -/
theorem of_content (h : Effect o place s answer s') {file : FileContent}
    (told : answer = .ok (.content file)) :
    ∃ bytes time, s.datedAt place = some (bytes, time) ∧ file.content.toUTF8.toList = bytes ∧
      file.version = (s.slotAt place).version ∧ file.mtime = max time (s.slotAt place).mtime ∧
      Becomes place (some (s.slotAt place)) (s.datedAt place) s s' := by
  cases h with
  | loaded bytes time text _ found spells told' becomes =>
      cases told.symm.trans told'
      exact ⟨bytes, time, found, spells, rfl, rfl, found ▸ becomes⟩
  | written _ _ _ _ _ told' | removed _ _ _ told' | forgotten _ told' | refused _ told'
  | brokenOff _ _ _ _ _ _ told' => cases told.symm.trans told'

/-- A write is counted, and its file has the time that is told. -/
theorem of_write (h : Effect o place s answer s') {bytes : Bytes} (leaves : o.leaves = some bytes)
    {file : FileVersion} (told : answer = .ok (.version file)) :
    (s.slotAt place).mtime < file.mtime ∧
      (s.volume.Calm → ∀ bytes' time, s.datedAt place = some (bytes', time) →
        time < file.mtime) ∧
      Becomes place (some ⟨(s.slotAt place).version + 1, file.mtime⟩) (some (bytes, file.mtime))
        s s' := by
  cases h with
  | written bytes' mtime leaves' later above told' becomes =>
      cases told.symm.trans told'
      cases leaves.symm.trans leaves'
      exact ⟨later, above, becomes⟩
  | removed _ leaves' => cases leaves.symm.trans leaves'
  | loaded _ _ _ _ _ _ told' | forgotten _ told' | refused _ told'
  | brokenOff _ _ _ _ _ _ told' => cases told.symm.trans told'

end Effect

end Loader

end Workbench.Session
