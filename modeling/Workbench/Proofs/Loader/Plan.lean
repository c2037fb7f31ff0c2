import Workbench.Session.Loader

/-!
# Plans of operations

An operation on a file looks its slot up, locks it, and does the rest call by call. A `Plan` is that
rest: the next call, and what follows each answer of it. Carried out in one go, the plans are the
operations of the loader; taken apart, they can be carried out side by side.
-/

namespace Workbench.Session.Loader

open Files (Fault Place Node Disk Volume)
open Wasm (Bytes)

/-! ### Operations -/

inductive Operation where
  | load (path : String)
  | save (path content : String) (baseVersion : Option Nat)
  | create (path : String)
  | delete (path : String)
  deriving DecidableEq, Repr

inductive Reply where
  | content (file : FileContent)
  | version (file : FileVersion)
  deriving DecidableEq, Repr

namespace Operation

def path : Operation → String
  | load path | save path _ _ | create path | delete path => path

def place? (o : Operation) : Option Place :=
  Files.confine? o.path

/-- The bytes that an operation leaves at its place; none if it leaves no file. -/
def leaves : Operation → Option Bytes
  | save _ content _ => some content.toUTF8.toList
  | create _ => some []
  | load _ | delete _ => none

/-- The operation as an action on a store. -/
def action : Operation → Action Reply
  | load path => Reply.content <$> Loader.load path
  | save path content base => Reply.version <$> Loader.save path content base
  | create path => Reply.version <$> Loader.create path
  | delete path => Reply.version <$> Loader.delete path

/-- What is checked before anything is looked up. -/
def accept (limit : Nat) (o : Operation) : Except Failure Place :=
  match o.place?, o with
  | none, o => .error (.badPath o.path)
  | some place, save path content _ =>
      let size := content.toUTF8.toList.length
      if limit < size then .error (.fileTooLarge path size limit) else .ok place
  | some place, _ => .ok place

end Operation

/-! ### Plans -/

/-- What is left to do for an operation that has locked the slot of its place. -/
inductive Plan where
  | done (answer : Except Failure Reply)
  | stat (next : Except Fault Node → Plan)
  | read (next : Except Fault String → Plan)
  | change (act : Disk → Nat → Except Fault Disk) (next : Except Fault Unit → Plan)
  /-- Stores the slot and answers. -/
  | commit (slot : Slot) (file : FileVersion)
  /-- Gives the slot back and fails. -/
  | forget (failure : Failure)

namespace Plan

def fail (failure : Failure) : Plan :=
  done (.error failure)

/-- Fails for a place where there is no file. The slot is given back if it was never written. -/
def missing (path : String) (slot : Slot) : Plan :=
  if slot.version = 0 then forget (.notFound path) else fail (.notFound path)

section

-- How messages show a place, and how large files may be.
variable (shown : Place → String) (limit : Nat) (place : Place)

/-- A change at a place; a fault is a failure. -/
def write (at_ : Place) (act : Disk → Nat → Except Fault Disk) (next : Plan) : Plan :=
  change act fun
    | .ok () => next
    | .error fault => fail (.io (shown at_) fault)

/-- Makes the time of the file later than a previous one, and goes on with the time it has then. -/
def advance (previous : Nat) (next : Nat → Plan) : Plan :=
  stat fun
    | .error .missing => fail (.notFound (shown place))
    | .error fault => fail (.io (shown place) fault)
    | .ok node =>
        if previous < node.modified then next node.modified
        else write shown place (fun d _ => d.setModified place (previous + 1)) (next (previous + 1))

def load (path : String) (slot : Slot) : Plan :=
  stat fun
    | .ok (.file content modified) =>
        if limit < content.length then fail (.fileTooLarge path content.length limit)
        else read fun
          | .ok text => done (.ok (.content ⟨place.text, text, max modified slot.mtime,
              text.utf8ByteSize, slot.version⟩))
          | .error fault => fail (.io (shown place) fault)
    | .ok .directory | .error .missing => missing path slot
    | .error fault => fail (.io (shown place) fault)

/-- A save whose base is not stale. -/
def replace (bytes : Bytes) (slot : Slot) : Plan :=
  stat fun found =>
    let previous :=
      match found with
      | .ok node => max node.modified slot.mtime
      | .error _ => slot.mtime
    write shown place.dropLast (fun d _ => d.makeDirectories place.dropLast)
      (write shown place (fun d now => d.write place bytes now)
        (advance shown place previous fun mtime => commit ⟨slot.version + 1, mtime⟩
          ⟨place.text, mtime, bytes.length, slot.version + 1⟩))

def save (path content : String) (base : Option Nat) (slot : Slot) : Plan :=
  match base with
  | some expected =>
      if expected ≠ slot.version then fail (.conflict path expected slot.version)
      else replace shown place content.toUTF8.toList slot
  | none => replace shown place content.toUTF8.toList slot

def create (path : String) (slot : Slot) : Plan :=
  write shown place.dropLast (fun d _ => d.makeDirectories place.dropLast)
    (change (fun d now => d.createNew place now) fun
      | .error .exists => fail (.alreadyExists path)
      | .error fault => fail (.io (shown place) fault)
      | .ok () => advance shown place slot.mtime fun mtime => commit ⟨slot.version + 1, mtime⟩
          ⟨place.text, mtime, 0, slot.version + 1⟩)

def delete (path : String) (slot : Slot) : Plan :=
  change (fun d _ => d.removeFile place) fun
    | .error .missing => missing path slot
    | .error fault => fail (.io (shown place) fault)
    | .ok () => commit { slot with version := slot.version + 1 }
        ⟨place.text, slot.mtime, 0, slot.version + 1⟩

end

end Plan

/-- The plan of an operation that has found its slot. -/
def Operation.plan (shown : Place → String) (limit : Nat) (place : Place) (slot : Slot) :
    Operation → Plan
  | .load path => .load shown limit place path slot
  | .save path content base => .save shown place path content base slot
  | .create path => .create shown place path slot
  | .delete path => .delete shown place path slot

/-! ### Plans carried out in one go -/

/-- Carries a plan out on a store. -/
def Plan.run (place : Place) : Plan → Store → Except Failure Reply × Store
  | done answer, s => (answer, s)
  | stat next, s =>
      let (found, volume) := s.volume.query (·.stat place)
      (next found).run place { s with volume := volume }
  | read next, s =>
      let (found, volume) := s.volume.query (·.readText place)
      (next found).run place { s with volume := volume }
  | change act next, s =>
      let (answer, volume) := s.volume.change act
      (next answer).run place { s with volume := volume }
  | commit slot file, s =>
      (.ok (.version file), { s with slots := Slot.set place slot s.slots })
  | forget failure, s => (.error failure, { s with slots := Slot.drop place s.slots })

def Operation.perform (o : Operation) (s : Store) : Except Failure Reply × Store :=
  match o.accept s.maxFileSize with
  | .error failure => (.error failure, s)
  | .ok place =>
      let slot := Slot.find place s.slots
      (o.plan s.shown s.maxFileSize place slot).run place
        { s with slots := Slot.set place slot s.slots }

section

variable {α β : Type} (s : Store)

theorem bind_apply (x : Action α) (f : α → Action β) : (x >>= f) s =
    match x s with
    | (.ok a, s') => f a s'
    | (.error failure, s') => (.error failure, s') := by
  show (match x s with | (answer, s') => ExceptT.bindCont f answer s') = _
  rcases x s with ⟨failure | a, s'⟩ <;> rfl

theorem map_apply (f : α → β) (x : Action α) : (f <$> x) s =
    match x s with
    | (.ok a, s') => (.ok (f a), s')
    | (.error failure, s') => (.error failure, s') := by
  exact bind_apply s x (pure ∘ f)

theorem pure_apply (a : α) : (pure a : Action α) s = (.ok a, s) := rfl

theorem throw_apply (failure : Failure) : (throw failure : Action α) s = (.error failure, s) := rfl

theorem get_apply : (get : Action Store) s = (.ok s, s) := rfl

theorem query_apply (look : Disk → Except Fault α) : Action.query look s =
    (.ok (s.volume.query look).1, { s with volume := (s.volume.query look).2 }) := rfl

theorem change_apply (act : Disk → Nat → Except Fault Disk) : Action.change act s =
    (.ok (s.volume.change act).1, { s with volume := (s.volume.change act).2 }) := rfl

theorem takeSlot_apply (place : Place) : Action.takeSlot place s =
    (.ok (Slot.find place s.slots),
      { s with slots := Slot.set place (Slot.find place s.slots) s.slots }) := rfl

theorem giveBack_apply (place : Place) (slot : Slot) : Action.giveBack place slot s =
    (.ok (), if slot.version = 0 then { s with slots := Slot.drop place s.slots } else s) := by
  unfold Action.giveBack
  split <;> rfl

theorem orFail_apply (place : Place) (answer : Except Fault α) : Action.orFail place answer s =
    match answer with
    | .ok a => (.ok a, s)
    | .error fault => (.error (.io (s.shown place) fault), s) := by
  cases answer <;> rfl

end

theorem checkSize_apply (path : String) (size : Nat) (s : Store) : checkSize path size s =
    (if s.maxFileSize < size then .error (.fileTooLarge path size s.maxFileSize) else .ok (),
      s) := by
  simp only [checkSize, bind_apply, get_apply]
  split <;> rfl

theorem run_missing (path : String) (slot : Slot) (place : Place) (s : Store) :
    (Plan.missing path slot).run place s = (.error (.notFound path),
      if slot.version = 0 then { s with slots := Slot.drop place s.slots } else s) := by
  unfold Plan.missing
  split <;> rfl

attribute [local simp] Plan.run

theorem Operation.perform_load (path : String) (s : Store) :
    (Operation.load path).action s = (Operation.load path).perform s := by
  simp only [action, perform, accept, place?, Operation.path, map_apply, Loader.load, bind_apply,
    confine]
  cases Files.confine? path with
  | none => simp only [throw_apply]
  | some place =>
      simp only [pure_apply, takeSlot_apply, query_apply, plan, Plan.load, Plan.run]
      rcases s.volume.query (·.stat place) with ⟨fault | ⟨⟩ | ⟨content, modified⟩, volume⟩
      · cases fault
        case missing => simp [bind_apply, giveBack_apply, throw_apply, run_missing]
        all_goals rfl
      · simp [bind_apply, giveBack_apply, throw_apply, run_missing]
      · simp only [bind_apply, checkSize_apply, query_apply, orFail_apply]
        by_cases large : s.maxFileSize < content.length
        · simp [large, Plan.fail]
        · simp only [large, if_false, Plan.run]
          rcases volume.query (·.readText place) with ⟨fault | text, volume⟩
          · rfl
          · rfl

section

variable (shown : Place → String) (s : Store) (place : Place)

theorem run_write (same : s.shown = shown) (at_ : Place) (act : Disk → Nat → Except Fault Disk)
    (next : Plan) : (Plan.write shown at_ act next).run place s =
      match (do Action.orFail at_ (← Action.change act) : Action Unit) s with
      | (.ok _, s') => next.run place s'
      | (.error failure, s') => (.error failure, s') := by
  subst same
  simp only [Plan.write, Plan.run, bind_apply, change_apply, orFail_apply]
  rcases s.volume.change act with ⟨fault | u, volume⟩
  · rfl
  · rfl

theorem run_advance (same : s.shown = shown) (previous : Nat) (next : Nat → Plan) :
    (Plan.advance shown place previous next).run place s =
      match advanceTime place previous s with
      | (.ok mtime, s') => (next mtime).run place s'
      | (.error failure, s') => (.error failure, s') := by
  subst same
  simp only [Plan.advance, Plan.run, advanceTime, bind_apply, query_apply]
  rcases s.volume.query (·.stat place) with ⟨fault | node, volume⟩
  · cases fault <;> rfl
  · by_cases later : previous < node.modified
    · simp only [later, if_true, pure_apply]
    · simp only [later, if_false, bind_apply, change_apply, orFail_apply]
      rw [run_write s.shown { s with volume := volume } place rfl]
      simp only [bind_apply, change_apply, orFail_apply]
      rcases volume.change fun d _ => d.setModified place (previous + 1) with ⟨fault | u, volume⟩
      · rfl
      · rfl

theorem run_replace (same : s.shown = shown) (bytes : Bytes) (slot : Slot) :
    (Plan.replace shown place bytes slot).run place s =
      (Reply.version <$> (do
        let previous :=
          match ← Action.query (·.stat place) with
          | .ok node => max node.modified slot.mtime
          | .error _ => slot.mtime
        Action.orFail place.dropLast (← Action.change fun d _ => d.makeDirectories place.dropLast)
        Action.orFail place (← Action.change fun d now => d.write place bytes now)
        let mtime ← advanceTime place previous
        Action.putSlot place ⟨slot.version + 1, mtime⟩
        return ⟨place.text, mtime, bytes.length, slot.version + 1⟩ : Action FileVersion)) s := by
  subst same
  simp only [Plan.replace, Plan.run, map_apply, bind_apply, query_apply]
  generalize s.volume.query (·.stat place) = found
  rw [run_write s.shown { s with volume := found.2 } place rfl]
  simp only [bind_apply, change_apply, orFail_apply]
  rcases found.2.change fun d _ => d.makeDirectories place.dropLast with ⟨fault | u, volume⟩
  · rfl
  dsimp only
  rw [run_write s.shown { s with volume := volume } place rfl]
  simp only [bind_apply, change_apply, orFail_apply]
  rcases volume.change fun d now => d.write place bytes now with ⟨fault | u, volume⟩
  · rfl
  dsimp only
  rw [run_advance s.shown { s with volume := volume } place rfl]
  generalize advanceTime place _ _ = result
  rcases result with ⟨failure | mtime, s'⟩
  · rfl
  · rfl

end

theorem Operation.perform_save (path content : String) (base : Option Nat) (s : Store) :
    (Operation.save path content base).action s = (Operation.save path content base).perform s := by
  simp only [action, perform, accept, place?, Operation.path, map_apply, Loader.save, bind_apply,
    confine]
  cases Files.confine? path with
  | none => simp only [throw_apply]
  | some place =>
      simp only [pure_apply, checkSize_apply]
      by_cases large : s.maxFileSize < content.toUTF8.toList.length
      · simp only [large, if_true]
      · simp only [large, if_false, takeSlot_apply, plan, Plan.save]
        have replaces := run_replace s.shown
          { s with slots := Slot.set place (Slot.find place s.slots) s.slots } place rfl
          content.toUTF8.toList (Slot.find place s.slots)
        cases base with
        | none =>
            rcases found : s.volume.query (·.stat place) with ⟨fault | node, volume⟩
            · simp only [replaces, map_apply, bind_apply, query_apply, found]
            · simp only [replaces, map_apply, bind_apply, query_apply, found]
        | some expected =>
            by_cases stale : expected ≠ (Slot.find place s.slots).version
            · simp only [if_pos stale, bind_apply, throw_apply]
              rfl
            · rcases found : s.volume.query (·.stat place) with ⟨fault | node, volume⟩
              · simp only [if_neg stale, replaces, map_apply, bind_apply, query_apply, found]
              · simp only [if_neg stale, replaces, map_apply, bind_apply, query_apply, found]

theorem Operation.perform_create (path : String) (s : Store) :
    (Operation.create path).action s = (Operation.create path).perform s := by
  simp only [action, perform, accept, place?, Operation.path, map_apply, Loader.create, bind_apply,
    confine]
  cases Files.confine? path with
  | none => simp only [throw_apply]
  | some place =>
      simp only [pure_apply, takeSlot_apply, plan, Plan.create, change_apply, orFail_apply]
      rw [run_write s.shown { s with slots := Slot.set place (Slot.find place s.slots) s.slots }
        place rfl]
      simp only [bind_apply, change_apply, orFail_apply]
      rcases s.volume.change fun d _ => d.makeDirectories place.dropLast with ⟨fault | u, volume⟩
      · rfl
      simp only [Plan.run]
      rcases volume.change fun d now => d.createNew place now with ⟨fault | u, volume⟩
      · cases fault <;> rfl
      simp only [bind_apply]
      rw [run_advance s.shown { s with
        slots := Slot.set place (Slot.find place s.slots) s.slots, volume := volume } place rfl]
      generalize advanceTime place _ _ = result
      rcases result with ⟨failure | mtime, s'⟩
      · rfl
      · rfl

theorem Operation.perform_delete (path : String) (s : Store) :
    (Operation.delete path).action s = (Operation.delete path).perform s := by
  simp only [action, perform, accept, place?, Operation.path, map_apply, Loader.delete, bind_apply,
    confine]
  cases Files.confine? path with
  | none => simp only [throw_apply]
  | some place =>
      simp only [pure_apply, takeSlot_apply, plan, Plan.delete, change_apply, Plan.run]
      rcases s.volume.change fun d _ => d.removeFile place with ⟨fault | u, volume⟩
      · cases fault
        case missing => simp [bind_apply, giveBack_apply, throw_apply, run_missing]
        all_goals rfl
      · rfl

/-- An operation of the loader is its plan carried out in one go. -/
theorem Operation.action_eq_perform (o : Operation) (s : Store) : o.action s = o.perform s := by
  cases o with
  | load path => exact perform_load path s
  | save path content base => exact perform_save path content base s
  | create path => exact perform_create path s
  | delete path => exact perform_delete path s

end Workbench.Session.Loader
