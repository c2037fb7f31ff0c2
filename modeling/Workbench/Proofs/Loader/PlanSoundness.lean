import Workbench.Proofs.Loader.Sharing

/-!
# What plans keep

A task that has locked a slot is alone with its file, but every call may find the rest of the disk
changed. So a plan is judged by the file at its place alone: whatever disk a call finds, as long as
it is a tree that has this file, the plan goes on well. A plan that ends without a write leaves the
file as the last write left it, and a plan that writes is counted when the file is what it leaves.
-/

namespace Workbench.Session.Loader

open Files (Fault Place Node Disk)
open Files.Disk (Sets IsTree)
open Wasm (Bytes)

/-! ### Answers -/

namespace Operation

def isLoad : Operation → Bool
  | load _ => true
  | _ => false

/-- The version that a save is based on. -/
def base? : Operation → Option Nat
  | save _ _ base => base
  | _ => none

end Operation

/-- Whether an answer is one of a given operation at a place with a number of writes. -/
structure Verdict (o : Operation) (writes : Nat) (answer : Except Failure Reply) : Prop where
  kind : ∀ reply, answer = .ok reply → (o.isLoad ↔ ∃ file, reply = .content file)
  stale : ∀ v, o.base? = some v → v ≠ writes → answer = .error (.conflict o.path v writes)
  current : (∀ v, o.base? = some v → v = writes) → ∀ path v n, answer ≠ .error (.conflict path v n)

/-- A file is the one that the last write left, if there was a write. -/
def Shows (last : Option (Option Bytes)) (file : Option Bytes) : Prop :=
  ∀ left, last = some left → file = left

/-- What the answer of a plan tells that has written nothing. -/
structure Truthful (o : Operation) (slot : Slot) (last : Option (Option Bytes))
    (answer : Except Failure Reply) : Prop where
  verdict : Verdict o slot.version answer
  unwritten : ∀ file, answer ≠ .ok (.version file)
  loaded : ∀ file, answer = .ok (.content file) → file.version = slot.version ∧
    Shows last (some file.content.toUTF8.toList)

/-! ### Sound plans -/

/-- A plan that goes on well at a place with a given file. -/
def Plan.Sound (o : Operation) (place : Place) (slot : Slot) (last : Option (Option Bytes)) :
    Plan → Option Bytes → Prop
  | done answer, file => Shows last file ∧ Truthful o slot last answer
  | stat next, file => ∀ d : Disk, d.IsTree → d.fileAt place = file →
      Sound o place slot last (next (d.stat place)) file
  | read next, file => ∀ d : Disk, d.IsTree → d.fileAt place = file →
      Sound o place slot last (next (d.readText place)) file
  | change act next, file => ∀ (d : Disk) (now : Nat), d.IsTree → d.fileAt place = file →
      (∀ fault, act d now = .error fault → Sound o place slot last (next (.error fault)) file) ∧
      ∀ d', act d now = .ok d' →
        ∃ file', Sets place file' d d' ∧ Sound o place slot last (next (.ok ())) file'
  | commit slot' version, file => file = o.leaves ∧ slot'.version = slot.version + 1 ∧
      version.version = slot.version + 1 ∧ Verdict o slot.version (.ok (.version version))
  | forget failure, file => Shows last file ∧ slot.version = 0 ∧
      Truthful o slot last (.error failure)

section

variable {o : Operation} {shown : Place → String} {limit : Nat} {place : Place} {slot : Slot}
  {last : Option (Option Bytes)} {file : Option Bytes}

theorem verdict_version (current : ∀ v, o.base? = some v → v = slot.version)
    (writes : o.isLoad = false) (version : FileVersion) :
    Verdict o slot.version (.ok (.version version)) where
  kind reply h := by
    cases h
    simp [writes]
  stale v base stale := absurd (current v base) stale
  current _ _ _ _ h := by cases h

theorem truthful_error (current : ∀ v, o.base? = some v → v = slot.version) {failure : Failure}
    (other : ∀ path v n, failure ≠ .conflict path v n) : Truthful o slot last (.error failure) where
  verdict :=
    { kind := fun _ h => by cases h
      stale := fun v base stale => absurd (current v base) stale
      current := fun _ path v n h => other path v n (by cases h; rfl) }
  unwritten _ h := by cases h
  loaded _ h := by cases h

/-- A plan can fail as long as the file is what it was. -/
theorem sound_fail (current : ∀ v, o.base? = some v → v = slot.version) (shows : Shows last file)
    {failure : Failure} (other : ∀ path v n, failure ≠ .conflict path v n) :
    (Plan.fail failure).Sound o place slot last file :=
  ⟨shows, truthful_error current other⟩

theorem sound_missing (current : ∀ v, o.base? = some v → v = slot.version) (shows : Shows last file)
    (path : String) : (Plan.missing path slot).Sound o place slot last file := by
  unfold Plan.missing
  split
  · next fresh => exact ⟨shows, fresh, truthful_error current (by simp)⟩
  · exact sound_fail current shows (by simp)

theorem sound_write (current : ∀ v, o.base? = some v → v = slot.version) (shows : Shows last file)
    {at_ : Place} {act : Disk → Nat → Except Fault Disk} {next : Plan} (file' : Option Bytes)
    (sets : ∀ (d : Disk) (now : Nat) (d' : Disk), d.IsTree → d.fileAt place = file →
      act d now = .ok d' → Sets place file' d d')
    (rest : next.Sound o place slot last file') :
    (Plan.write shown at_ act next).Sound o place slot last file := by
  intro d now tree here
  exact ⟨fun _ _ => sound_fail current shows (by simp),
    fun d' ok => ⟨file', sets d now d' tree here ok, rest⟩⟩

/-- The time of a file that was just written can be set. -/
theorem sound_advance {bytes : Bytes} (proper : place ≠ []) {previous : Nat} {next : Nat → Plan}
    (rest : ∀ mtime, (next mtime).Sound o place slot last (some bytes)) :
    (Plan.advance shown place previous next).Sound o place slot last (some bytes) := by
  intro d tree here
  obtain ⟨modified, there⟩ := Disk.fileAt_eq_some_iff.1 here
  rw [tree.stat_eq_ok_iff.2 there]
  dsimp only
  split
  · exact rest _
  · intro d now tree here
    obtain ⟨d', sets⟩ := tree.setModified_of_file here (previous + 1)
    refine ⟨fun fault h => ?_, fun d'' h => ⟨some bytes, ?_, rest _⟩⟩
    · cases sets.symm.trans h
    · exact here ▸ tree.setModified proper h

theorem sound_load (path : String) (shows : Shows last file) :
    (Plan.load shown limit place path slot).Sound (.load path) place slot last file := by
  have current : ∀ v, (Operation.load path).base? = some v → v = slot.version := by
    intro v h
    cases h
  intro d tree here
  cases found : d.stat place with
  | error fault =>
      cases fault
      case missing => exact sound_missing current shows path
      all_goals exact sound_fail current shows (by simp)
  | ok node =>
      cases node with
      | directory => exact sound_missing current shows path
      | file content modified =>
          dsimp only
          split
          · exact sound_fail current shows (by simp)
          · intro d tree here
            cases text : d.readText place with
            | error fault => exact sound_fail current shows (by simp)
            | ok text' =>
                have bytes := Disk.fileAt_of_readText text
                rw [here] at bytes
                refine ⟨shows, ⟨⟨?_, ?_, ?_⟩, ?_, ?_⟩⟩
                · intro reply h
                  cases h
                  simp [Operation.isLoad]
                · intro v h
                  cases h
                · intro _ _ _ _ h
                  cases h
                · intro _ h
                  cases h
                · intro _ h
                  cases h
                  exact ⟨rfl, bytes ▸ shows⟩

theorem sound_replace (proper : place ≠ []) (path content : String) {base : Option Nat}
    (current : ∀ v, (Operation.save path content base).base? = some v → v = slot.version)
    (shows : Shows last file) :
    (Plan.replace shown place content.toUTF8.toList slot).Sound (.save path content base) place slot
      last file := by
  intro d tree here
  refine sound_write current shows file ?_ ?_
  · intro d now d' tree here ok
    exact here ▸ tree.makeDirectories ok place
  refine sound_write current shows (some content.toUTF8.toList) ?_ ?_
  · intro d now d' tree _ ok
    exact tree.write proper ok
  refine sound_advance proper fun mtime => ?_
  exact ⟨rfl, rfl, rfl, verdict_version current rfl _⟩

theorem sound_save (proper : place ≠ []) (path content : String) (base : Option Nat)
    (shows : Shows last file) : (Plan.save shown place path content base slot).Sound
      (.save path content base) place slot last file := by
  cases base with
  | none => exact sound_replace proper path content (fun _ h => by cases h) shows
  | some expected =>
      unfold Plan.save
      dsimp only
      split
      · next stale =>
          refine ⟨shows, ⟨⟨?_, ?_, ?_⟩, ?_, ?_⟩⟩
          · intro reply h
            cases h
          · intro v h _
            cases h
            rfl
          · intro current
            exact absurd (current expected rfl) stale
          · intro _ h
            cases h
          · intro _ h
            cases h
      · next same =>
          refine sound_replace proper path content ?_ shows
          intro v h
          cases h
          exact Decidable.of_not_not same

theorem sound_create (proper : place ≠ []) (path : String) (shows : Shows last file) :
    (Plan.create shown place path slot).Sound (.create path) place slot last file := by
  have current : ∀ v, (Operation.create path).base? = some v → v = slot.version := by
    intro v h
    cases h
  refine sound_write current shows file ?_ ?_
  · intro d now d' tree here ok
    exact here ▸ tree.makeDirectories ok place
  intro d now tree here
  refine ⟨fun fault _ => ?_, fun d' ok => ⟨some [], tree.createNew proper ok, ?_⟩⟩
  · cases fault <;> exact sound_fail current shows (by simp)
  · refine sound_advance proper fun mtime => ?_
    exact ⟨rfl, rfl, rfl, verdict_version current rfl _⟩

theorem sound_delete (proper : place ≠ []) (path : String) (shows : Shows last file) :
    (Plan.delete shown place path slot).Sound (.delete path) place slot last file := by
  have current : ∀ v, (Operation.delete path).base? = some v → v = slot.version := by
    intro v h
    cases h
  intro d now tree here
  refine ⟨fun fault _ => ?_, fun d' ok => ⟨none, tree.removeFile proper ok, ?_⟩⟩
  · cases fault
    case missing => exact sound_missing current shows path
    all_goals exact sound_fail current shows (by simp)
  · exact ⟨rfl, rfl, rfl, verdict_version current rfl _⟩

/-- Every operation that finds the file as the last write left it goes on well. -/
theorem Operation.sound_plan (o : Operation) (proper : place ≠ []) (shows : Shows last file) :
    (o.plan shown limit place slot).Sound o place slot last file := by
  cases o with
  | load path => exact sound_load path shows
  | save path content base => exact sound_save proper path content base shows
  | create path => exact sound_create proper path shows
  | delete path => exact sound_delete proper path shows

end

end Workbench.Session.Loader
