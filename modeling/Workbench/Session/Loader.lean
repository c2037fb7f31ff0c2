import Workbench.Files.Volume
import Workbench.Session.Event

/-!
# Project files

The loader reads and writes the files of a project. Every path is taken as a place below the root. A
place has a version, which counts the writes to it, deletions included, and a slot that remembers
the version and the last time reported; a write that names another version than the current one is
refused. Reported times of one place increase with every write, even when the clock stands still.

An operation takes a slot before it knows whether it will succeed. Slots of places that were never
written and turn out to be missing are given back.
-/

namespace Workbench.Session

open Files (Fault Place Node Disk Volume)

/-! ### Slots -/

/-- What is remembered of a place. -/
structure Slot where
  /-- How many writes there were. -/
  version : Nat
  /-- The time reported for the last write, zero before it. -/
  mtime : Nat
  deriving DecidableEq, Repr, Inhabited

namespace Slot

def fresh : Slot := ⟨0, 0⟩

/-- The slot in a table; a fresh one without an entry. -/
def find (place : Place) : List (Place × Slot) → Slot
  | [] => fresh
  | (p, slot) :: rest => if p = place then slot else find place rest

def set (place : Place) (slot : Slot) : List (Place × Slot) → List (Place × Slot)
  | [] => [(place, slot)]
  | (p, old) :: rest => if p = place then (p, slot) :: rest else (p, old) :: set place slot rest

/-- The table without the slot of a place. -/
def drop (place : Place) (slots : List (Place × Slot)) : List (Place × Slot) :=
  slots.filter fun (p, _) => p ≠ place

theorem find_set_self (place : Place) (slot : Slot) (slots : List (Place × Slot)) :
    find place (set place slot slots) = slot := by
  induction slots with
  | nil => simp [set, find]
  | cons e rest ih => by_cases h : e.1 = place <;> simp [set, find, h, ih]

theorem find_set_of_ne {place other : Place} (h : other ≠ place) (slot : Slot)
    (slots : List (Place × Slot)) : find other (set place slot slots) = find other slots := by
  induction slots with
  | nil => simp [set, find, h.symm]
  | cons e rest ih =>
      by_cases he : e.1 = place
      · simp [set, find, he, h.symm]
      · by_cases ho : e.1 = other <;> simp_all [set, find]

end Slot

/-! ### Actions -/

/-- The files of a project and what the loader remembers of them. -/
structure Store where
  /-- The root as messages show it. -/
  root : String
  maxFileSize : Nat
  buildDir : String
  slots : List (Place × Slot)
  volume : Volume
  deriving Repr, Inhabited

/-- Something done to a store, which can fail and still leave it changed. -/
abbrev Action (α : Type) := ExceptT Failure (StateM Store) α

namespace Store

def shown (s : Store) (place : Place) : String :=
  if place = [] then s.root else Files.joinText s.root place.text

end Store

namespace Action

/-- A call that only looks at the volume. -/
def query {α : Type} (look : Disk → Except Fault α) : Action (Except Fault α) := do
  let s ← get
  let (answer, volume) := s.volume.query look
  set { s with volume := volume }
  return answer

/-- A call that changes the volume. -/
def change (act : Disk → Nat → Except Fault Disk) : Action (Except Fault Unit) := do
  let s ← get
  let (answer, volume) := s.volume.change act
  set { s with volume := volume }
  return answer

/-- The answer of a call about a place, a fault being a failure. -/
def orFail {α : Type} (place : Place) (answer : Except Fault α) : Action α := do
  match answer with
  | .ok a => return a
  | .error fault => throw (.io ((← get).shown place) fault)

def takeSlot (place : Place) : Action Slot := do
  let s ← get
  let slot := Slot.find place s.slots
  set { s with slots := Slot.set place slot s.slots }
  return slot

def putSlot (place : Place) (slot : Slot) : Action Unit :=
  modify fun s => { s with slots := Slot.set place slot s.slots }

/-- Gives the slot of a missing place back, unless there were writes to it. -/
def giveBack (place : Place) (slot : Slot) : Action Unit :=
  if slot.version = 0 then modify fun s => { s with slots := Slot.drop place s.slots } else pure ()

end Action

namespace Loader

open Workbench.Session.Action (query change orFail takeSlot putSlot giveBack)

def confine (path : String) : Action Place :=
  match Files.confine? path with
  | some place => return place
  | none => throw (.badPath path)

/-- Fails for what is larger than files may be. -/
def checkSize (path : String) (size : Nat) : Action Unit := do
  let limit := (← get).maxFileSize
  if limit < size then throw (.fileTooLarge path size limit)

/-- Makes the time of a file later than a previous one; the time that it then has. -/
def advanceTime (place : Place) (previous : Nat) : Action Nat := do
  match ← query (·.stat place) with
  | .error .missing => throw (.notFound ((← get).shown place))
  | .error fault => throw (.io ((← get).shown place) fault)
  | .ok node =>
      let current := node.modified
      if previous < current then return current
      else
        orFail place (← change fun d _ => d.setModified place (previous + 1))
        return previous + 1

/-! ### Operations -/

/-- The path of a file as a session shows it. -/
def resolve (path : String) : Action String := do
  let place ← confine path
  return (← get).shown place

def load (path : String) : Action FileContent := do
  let place ← confine path
  let slot ← takeSlot place
  match ← query (·.stat place) with
  | .ok (.file content modified) =>
      checkSize path content.length
      let text ← orFail place (← query (·.readText place))
      return ⟨place.text, text, max modified slot.mtime, text.utf8ByteSize, slot.version⟩
  | .ok .directory | .error .missing =>
      giveBack place slot
      throw (.notFound path)
  | .error fault => throw (.io ((← get).shown place) fault)

/-- Writes a file, and the directories above it where they are missing. -/
def save (path content : String) (baseVersion : Option Nat) : Action FileVersion := do
  let place ← confine path
  let bytes := content.toUTF8.toList
  checkSize path bytes.length
  let slot ← takeSlot place
  match baseVersion with
  | some expected =>
      if expected ≠ slot.version then throw (.conflict path expected slot.version)
  | none => pure ()
  let previous :=
    match ← query (·.stat place) with
    | .ok node => max node.modified slot.mtime
    | .error _ => slot.mtime
  orFail place.dropLast (← change fun d _ => d.makeDirectories place.dropLast)
  orFail place (← change fun d now => d.write place bytes now)
  let mtime ← advanceTime place previous
  putSlot place ⟨slot.version + 1, mtime⟩
  return ⟨place.text, mtime, bytes.length, slot.version + 1⟩

/-- Makes an empty file where there is nothing. -/
def create (path : String) : Action FileVersion := do
  let place ← confine path
  let slot ← takeSlot place
  orFail place.dropLast (← change fun d _ => d.makeDirectories place.dropLast)
  match ← change fun d now => d.createNew place now with
  | .error .exists => throw (.alreadyExists path)
  | .error fault => throw (.io ((← get).shown place) fault)
  | .ok () =>
      let mtime ← advanceTime place slot.mtime
      putSlot place ⟨slot.version + 1, mtime⟩
      return ⟨place.text, mtime, 0, slot.version + 1⟩

/-- Removes a file. What is written on the basis of an older version is stale from then on. -/
def delete (path : String) : Action FileVersion := do
  let place ← confine path
  let slot ← takeSlot place
  match ← change fun d _ => d.removeFile place with
  | .error .missing =>
      giveBack place slot
      throw (.notFound path)
  | .error fault => throw (.io ((← get).shown place) fault)
  | .ok () =>
      putSlot place { slot with version := slot.version + 1 }
      return ⟨place.text, slot.mtime, 0, slot.version + 1⟩

/-! ### Lists -/

/-- Whether a place is, or lies in, the directory for artifacts. Only a directory that is spelled by
its names alone is recognized. -/
def isBuilt (buildDir : String) (place : Place) : Bool :=
  match Files.exactNames? (Files.components buildDir) with
  | some built => !built.isEmpty && built.isPrefixOf place
  | none => false

def isListed (buildDir : String) (place : Place) : Bool :=
  !place.any Files.isHidden && !isBuilt buildDir place

/-- The entry of a node in a list; directories have none. -/
def entry? (place : Place) : Node → Option FileEntry
  | .directory => none
  | .file content modified => some ⟨place.text, modified, content.length⟩

/-- The files of a disk in a list, ordered by path. -/
def entries (buildDir : String) (d : Disk) : List FileEntry :=
  (((d.below []).filter fun (place, _) => isListed buildDir place).filterMap fun (place, node) =>
    entry? place node).mergeSort fun a b => !decide (b.path < a.path)

/-- Every file of the project, hidden ones and artifacts apart. -/
def list : Action (List FileEntry) := do
  let buildDir := (← get).buildDir
  orFail [] (← query fun d => .ok (entries buildDir d))

end Loader

end Workbench.Session
