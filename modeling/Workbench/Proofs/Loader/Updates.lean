import Workbench.Proofs.Loader.Solo

/-!
# No update is lost

The writes to a place are in one order, and the versions that they report are their numbers in it. A
save that is based on a version is refused exactly if there were more or fewer writes before it, and
what is loaded with a version is what the write with this number left.

A save that is too large is refused before it is compared with anything, so that it is told of its
size even if it is stale.
-/

namespace Workbench.Session.Loader.Shelf

open Files (Place)
open Wasm (Bytes)

variable {ops : Nat → Operation} {trace : List Step} {w w' : Shelf} {s : Step} {k : Nat}
  {place : Place} {c : Nat} {plan : Plan} {answer : Except Failure Reply} {limit : Nat}

/-! ### Answers -/

/-- A task that has locked the slot of its place and has written nothing, as nobody else has since.
-/
structure Entered (ops : Nat → Operation) (trace : List Step) (k : Nat) (place : Place) : Prop where
  uncounted : ⟨k, .commit⟩ ∉ trace
  since : ∃ before after, trace = before ++ ⟨k, .lock⟩ :: after ∧
    (mutations ops place before).length = (mutations ops place trace).length

/-- The answer of a task that has locked the slot of its place. -/
structure Answered (ops : Nat → Operation) (trace : List Step) (k : Nat) (place : Place)
    (answer : Except Failure Reply) : Prop where
  entered : ∃ before after, trace = before ++ ⟨k, .lock⟩ :: after ∧
    Verdict (ops k) (mutations ops place before).length answer ∧
    ∀ file, answer = .ok (.version file) →
      file.version = (mutations ops place before).length + 1
  counted : ∀ file, answer = .ok (.version file) →
    (mutations ops place trace)[file.version - 1]? = some k
  uncounted : (∀ file, answer ≠ .ok (.version file)) → ⟨k, .commit⟩ ∉ trace
  loaded : ∀ file, answer = .ok (.content file) → 1 ≤ file.version →
    ∃ j, (mutations ops place trace)[file.version - 1]? = some j ∧
      (ops j).leaves = some file.content.toUTF8.toList

/-- What is known of a task at the point that it has reached. -/
def Told (ops : Nat → Operation) (limit : Nat) (trace : List Step) (k : Nat) : Phase → Prop
  | .called => ⟨k, .commit⟩ ∉ trace
  | .waiting p _ => (ops k).accept limit = .ok p ∧ ⟨k, .commit⟩ ∉ trace
  | .inside p _ (.done answer) => (ops k).accept limit = .ok p ∧ Answered ops trace k p answer
  | .inside p _ _ => (ops k).accept limit = .ok p ∧ Entered ops trace k p
  | .leaving _ answer => ∃ p, (ops k).accept limit = .ok p ∧ Answered ops trace k p answer
  | .returned answer => (⟨k, .commit⟩ ∉ trace ∧
        ∃ failure, (ops k).accept limit = .error failure ∧ answer = .error failure) ∨
      ∃ p, (ops k).accept limit = .ok p ∧ Answered ops trace k p answer

theorem getElem?_mutations {i j : Nat} (h : (mutations ops place trace)[i]? = some j) (s : Step) :
    (mutations ops place (trace ++ [s]))[i]? = some j := by
  obtain ⟨bound, -⟩ := List.getElem?_eq_some_iff.1 h
  obtain ⟨more, extends_⟩ : mutations ops place trace <+: mutations ops place (trace ++ [s]) :=
    mutations_prefix place trace [s]
  rw [← extends_, List.getElem?_append_left bound, h]

theorem Answered.append (h : Answered ops trace k place answer) (other : s ≠ ⟨k, .commit⟩) :
    Answered ops (trace ++ [s]) k place answer where
  entered := by
    obtain ⟨before, after, rfl, verdict⟩ := h.entered
    exact ⟨before, after ++ [s], by simp, verdict⟩
  counted file is := getElem?_mutations (h.counted file is) s
  uncounted not := by
    have := h.uncounted not
    simp [this, other.symm]
  loaded file is written := by
    obtain ⟨j, counted, leaves⟩ := h.loaded file is written
    exact ⟨j, getElem?_mutations counted s, leaves⟩

theorem Entered.append (h : Entered ops trace k place) (other : s ≠ ⟨k, .commit⟩)
    (same : mutations ops place (trace ++ [s]) = mutations ops place trace) :
    Entered ops (trace ++ [s]) k place where
  uncounted := by
    have := h.uncounted
    simp [this, other.symm]
  since := by
    obtain ⟨before, after, split, length⟩ := h.since
    exact ⟨before, after ++ [s], by simp [split], by rw [same, length]⟩

/-- A task that has written nothing answers truthfully. -/
theorem Entered.answered (h : Entered ops trace k place) {slot : Slot}
    (counted : slot.version = (mutations ops place trace).length)
    (truthful : Truthful (ops k) slot (lastLeft ops place trace) answer) :
    Answered ops trace k place answer where
  entered := by
    obtain ⟨before, after, split, length⟩ := h.since
    refine ⟨before, after, split, ?_, fun file is => absurd is (truthful.unwritten file)⟩
    rw [length, ← counted]
    exact truthful.verdict
  counted file is := absurd is (truthful.unwritten file)
  uncounted _ := h.uncounted
  loaded file is written := by
    obtain ⟨version, shows⟩ := truthful.loaded file is
    have bound : file.version - 1 < (mutations ops place trace).length := by omega
    have last : (mutations ops place trace).getLast? =
        some (mutations ops place trace)[file.version - 1] := by
      rw [List.getLast?_eq_getElem?, ← counted, ← version, List.getElem?_eq_getElem bound]
    refine ⟨_, List.getElem?_eq_getElem bound, ?_⟩
    exact (shows _ (by rw [lastLeft, last]; rfl)).symm

/-- A sound plan is at its end with an answer, or the task has still written nothing. -/
theorem Entered.told (h : Entered ops trace k place) (slot : Slot) (file : Option Bytes)
    (accepts : (ops k).accept limit = .ok place)
    (counted : slot.version = (mutations ops place trace).length)
    (sound : plan.Sound (ops k) place slot (lastLeft ops place trace) file) :
    Told ops limit trace k (.inside place c plan) := by
  cases plan with
  | done answer => exact ⟨accepts, h.answered counted sound.2⟩
  | _ => exact ⟨accepts, h⟩

/-! ### Steps of other tasks -/

theorem limit_of_takes (takes : Takes ops w s w') : w'.limit = w.limit := by
  cases takes <;> rfl

theorem Told.other (inv : Inv ops trace w) (told : Told ops limit trace k (w.phase k))
    (takes : Takes ops w s w') (other : k ≠ s.task) :
    Told ops limit (trace ++ [s]) k (w'.phase k) := by
  rw [phase_of_takes takes other]
  have not : s ≠ ⟨k, .commit⟩ := fun h => other (by rw [h])
  have uncounted : ⟨k, .commit⟩ ∉ trace → ⟨k, .commit⟩ ∉ trace ++ [s] := by
    intro h
    simp [h, not.symm]
  cases at_ : w.phase k with
  | called =>
      rw [at_] at told
      exact uncounted told
  | waiting p c =>
      rw [at_] at told
      exact ⟨told.1, uncounted told.2⟩
  | inside p c plan =>
      rw [at_] at told
      cases plan with
      | done answer => exact ⟨told.1, told.2.append not⟩
      | _ =>
          have elsewhere := inv.filed.elsewhere other (worksAt_of_inside at_ rfl)
          exact ⟨told.1, told.2.append not (inv.filed.mutations_of_takes takes elsewhere)⟩
  | leaving c answer =>
      rw [at_] at told
      obtain ⟨p, accepts, answered⟩ := told
      exact ⟨p, accepts, answered.append not⟩
  | returned answer =>
      rw [at_] at told
      exact told.imp (.imp_left uncounted) fun ⟨p, accepts, answered⟩ =>
        ⟨p, accepts, answered.append not⟩

/-! ### Steps of the task itself -/

theorem Told.call (inv : Inv ops trace w) (told : Told ops limit trace k (w.phase k))
    (quiet : s.move ≠ .commit) (inside : w.phase k = .inside place c plan)
    (busy : plan.isDone = false) {v : Files.Volume} {next : Plan}
    (proceeds : Proceeds ops trace w k place c v next) :
    Told ops limit (trace ++ [s]) k (.inside place c next) := by
  rw [inside] at told
  have entry := (inv.placed k place c (uses_of_inside inside busy)).1
  obtain ⟨slot, at_⟩ := inv.filed.slot entry
  obtain ⟨-, file, -, sound⟩ := proceeds
  have same : mutations ops place (trace ++ [s]) = mutations ops place trace :=
    mutations_append_of_ne quiet place trace
  have other : s ≠ ⟨k, .commit⟩ := fun h => quiet (by rw [h])
  have here : (ops k).accept limit = .ok place ∧ Entered ops trace k place := by
    cases plan with
    | done answer => cases busy
    | _ => exact told
  refine (here.2.append other same).told slot file here.1 ?_ ?_
  · rw [same]
    exact inv.counted place c slot entry at_
  · rw [lastLeft_append_of_ne quiet]
    exact sound slot at_

theorem Told.commit (inv : Inv ops trace w) (told : Told ops limit trace k (w.phase k))
    {slot' : Slot} {file : FileVersion}
    (inside : w.phase k = .inside place c (.commit slot' file)) :
    Told ops limit (trace ++ [⟨k, .commit⟩]) k
      (.inside place c (.done (.ok (.version file)))) := by
  rw [inside] at told
  obtain ⟨accepts, -, before, after, split, length⟩ := told
  obtain ⟨entry, owns⟩ := inv.placed k place c (uses_of_inside inside rfl)
  obtain ⟨slot, at_⟩ := inv.filed.slot entry
  obtain ⟨-, -, version, verdict⟩ := inv.sound k place c _ slot inside rfl at_
  have counted := inv.counted place c slot entry at_
  refine ⟨accepts, ?_, ?_, ?_, ?_⟩
  · refine ⟨before, after ++ [⟨k, .commit⟩], by simp [split], ?_, ?_⟩
    · rw [length, ← counted]
      exact verdict
    · rintro file' ⟨⟩
      rw [length, ← counted, version]
  · rintro file' ⟨⟩
    rw [mutations_append_commit owns, version, counted, Nat.add_sub_cancel]
    simp
  · exact fun other => absurd rfl (other file)
  · rintro file' ⟨⟩

theorem Told.forget (inv : Inv ops trace w) (told : Told ops limit trace k (w.phase k))
    {failure : Failure} (inside : w.phase k = .inside place c (.forget failure)) :
    Told ops limit (trace ++ [⟨k, .forget⟩]) k (.inside place c (.done (.error failure))) := by
  rw [inside] at told
  have entry := (inv.placed k place c (uses_of_inside inside rfl)).1
  obtain ⟨slot, at_⟩ := inv.filed.slot entry
  obtain ⟨-, -, truthful⟩ := inv.sound k place c _ slot inside rfl at_
  have counted := inv.counted place c slot entry at_
  exact ⟨told.1, (told.2.answered counted truthful).append (by simp)⟩

theorem Told.own (inv : Inv ops trace w) (told : Told ops w.limit trace s.task (w.phase s.task))
    (takes : Takes ops w s w') : Told ops w.limit (trace ++ [s]) s.task (w'.phase s.task) := by
  cases takes with
  | refuse called refuses =>
      rw [called] at told
      simp only [phase_goto_self]
      exact .inl ⟨by simpa [Told] using told, _, refuses, rfl⟩
  | find called accepts _ =>
      rw [called] at told
      simp only [phase_goto_self]
      exact ⟨accepts, by simpa [Told] using told⟩
  | make called accepts _ =>
      rw [called] at told
      simp only [phase_goto_self]
      exact ⟨accepts, by simpa [Told] using told⟩
  | @lock k place c slot waiting free at_ =>
      rw [waiting] at told
      simp only [phase_goto_self]
      -- From here on the task is judged by the writes up to this step.
      have entry := (inv.placed k place c (uses_of_waiting waiting)).1
      have same : mutations ops place (trace ++ [⟨k, .lock⟩]) = mutations ops place trace :=
        mutations_append_of_ne (by simp) place trace
      have entered : Entered ops (trace ++ [⟨k, .lock⟩]) k place :=
        ⟨by simpa using told.2, trace, [], rfl, by rw [same]⟩
      refine entered.told slot (w.volume.disk.fileAt place) told.1 ?_ ?_
      · rw [same]
        exact inv.counted place c slot entry at_
      · rw [lastLeft_append_of_ne (by simp)]
        exact inv.sound_lock waiting free slot
  | stat inside =>
      simp only [phase_goto_self]
      exact told.call inv (by simp) inside rfl (inv.proceeds_stat inside)
  | read inside =>
      simp only [phase_goto_self]
      exact told.call inv (by simp) inside rfl (inv.proceeds_read inside)
  | change inside =>
      simp only [phase_goto_self]
      exact told.call inv (by simp) inside rfl (inv.proceeds_change inside)
  | commit inside =>
      simp only [phase_goto_self]
      exact told.commit inv inside
  | forget inside _ =>
      simp only [phase_goto_self]
      exact told.forget inv inside
  | keep inside _ =>
      simp only [phase_goto_self]
      exact told.forget inv inside
  | unlock inside =>
      rw [inside] at told
      simp only [phase_goto_self]
      exact ⟨_, told.1, told.2.append (by simp)⟩
  | release leaving =>
      rw [leaving] at told
      obtain ⟨p, accepts, answered⟩ := told
      simp only [phase_goto_self]
      exact .inr ⟨p, accepts, answered.append (by simp)⟩

theorem Run.told (run : Run ops trace w) :
    Inv ops trace w ∧ ∀ k, Told ops w.limit trace k (w.phase k) := by
  refine run.induction
    (motive := fun trace w => Inv ops trace w ∧ ∀ k, Told ops w.limit trace k (w.phase k)) ?_ ?_
  · intro shown limit volume tree calm
    exact ⟨inv_opened tree calm, by simp [opened, Told]⟩
  · rintro trace w s w' ⟨inv, told⟩ takes
    refine ⟨inv.step takes, fun k => ?_⟩
    rw [limit_of_takes takes]
    by_cases own : k = s.task
    · subst own
      exact Told.own inv (told _) takes
    · exact (told k).other inv takes own

/-! ### The order of the writes -/

theorem nodup_mutations (run : Run ops trace w) (place : Place) :
    (mutations ops place trace).Nodup := by
  obtain ⟨shown, limit, volume, tree, calm, leads⟩ := run
  induction leads with
  | refl => simp [mutations]
  | @snoc steps s w₁ w₂ leads takes ih =>
      have run₁ : Run ops steps w₁ := ⟨shown, limit, volume, tree, calm, leads⟩
      cases takes with
      | @commit k p c slot file inside =>
          obtain ⟨inv, told⟩ := run₁.told
          have owns := (inv.placed k p c (uses_of_inside inside rfl)).2
          have told := told k
          rw [inside] at told
          by_cases here : p = place
          · subst here
            rw [mutations_append_commit owns]
            refine List.nodup_append.2 ⟨ih, by simp, ?_⟩
            intro j mem j' mem'
            rw [List.mem_singleton] at mem'
            subst mem'
            rintro rfl
            exact told.2.uncounted (mem_mutations.1 mem).1
          · rw [mutations_append_elsewhere]
            · exact ih
            · rw [owns, ne_eq, Option.some.injEq]
              exact here
      | _ =>
          rw [mutations_append_of_ne (by simp)]
          exact ih

/-- What the answers of any tasks tell of the order of the writes. -/
structure Updates (ops : Nat → Operation) (trace : List Step) (w : Shelf) : Prop where
  once : ∀ p, (mutations ops p trace).Nodup
  /-- The writes to a place report the versions from one on, in their order. -/
  numbered : ∀ p i k answer, (mutations ops p trace)[i]? = some k → w.phase k = .returned answer →
    ∃ file, answer = .ok (.version file) ∧ file.version = i + 1
  /-- Whatever is told to have succeeded, and is no load, is among them. -/
  recorded : ∀ k reply, (ops k).isLoad = false → w.phase k = .returned (.ok reply) →
    ∃ p, (ops k).place? = some p ∧ k ∈ mutations ops p trace
  based : ∀ k path content v p answer, ops k = .save path content (some v) →
    Files.confine? path = some p → content.toUTF8.toList.length ≤ w.limit →
    w.phase k = .returned answer → ∃ before after, trace = before ++ ⟨k, .lock⟩ :: after ∧
      ((mutations ops p before).length ≠ v →
        answer = .error (.conflict path v (mutations ops p before).length)) ∧
      ((mutations ops p before).length = v →
        (∀ path' e n, answer ≠ .error (.conflict path' e n)) ∧
        ∀ file, answer = .ok (.version file) → file.version = v + 1)
  loaded : ∀ k reply, (ops k).isLoad → w.phase k = .returned (.ok reply) →
    ∃ file, reply = .content file ∧ (1 ≤ file.version → ∃ p j, (ops k).place? = some p ∧
      (mutations ops p trace)[file.version - 1]? = some j ∧
      (ops j).leaves = some file.content.toUTF8.toList)

/-- A task that succeeds has locked the slot of its place. -/
theorem Told.answered_of_ok {reply : Reply}
    (told : Told ops limit trace k (.returned (.ok reply))) :
    ∃ p, (ops k).place? = some p ∧ Answered ops trace k p (.ok reply) := by
  rcases told with ⟨-, failure, -, ⟨⟩⟩ | ⟨p, accepts, answered⟩
  exact ⟨p, place?_of_accept accepts, answered⟩

/-- The place of a write in the order of the writes is the version that it reports. -/
theorem Told.numbered {p : Place} {i : Nat} {answer : Except Failure Reply}
    (told : Told ops limit trace k (.returned answer)) (once : (mutations ops p trace).Nodup)
    (at_ : (mutations ops p trace)[i]? = some k) :
    ∃ file, answer = .ok (.version file) ∧ file.version = i + 1 := by
  obtain ⟨counted, owns⟩ := mem_mutations.1 (List.mem_of_getElem? at_)
  rcases told with ⟨uncounted, -⟩ | ⟨p', accepts, answered⟩
  · exact absurd counted uncounted
  · have same : p' = p := Option.some.inj ((place?_of_accept accepts).symm.trans owns)
    subst same
    obtain ⟨file, rfl⟩ : ∃ file, answer = .ok (.version file) :=
      Classical.byContradiction fun none =>
        answered.uncounted (fun file is => none ⟨file, is⟩) counted
    obtain ⟨before, -, -, -, number⟩ := answered.entered
    have number := number file rfl
    have index := answered.counted file rfl
    have bound : i < (mutations ops p' trace).length := (List.getElem?_eq_some_iff.1 at_).1
    have := (List.getElem?_inj bound once).1 (at_.trans index.symm)
    exact ⟨file, rfl, by omega⟩

theorem Told.recorded {reply : Reply} (told : Told ops limit trace k (.returned (.ok reply)))
    (writes : (ops k).isLoad = false) :
    ∃ p, (ops k).place? = some p ∧ k ∈ mutations ops p trace := by
  obtain ⟨p, owns, answered⟩ := told.answered_of_ok
  obtain ⟨before, -, -, verdict, -⟩ := answered.entered
  refine ⟨p, owns, ?_⟩
  cases reply with
  | content file => simpa [writes] using verdict.kind _ rfl
  | version file => exact List.mem_of_getElem? (answered.counted file rfl)

/-- A save with a base is judged by the writes before it locks the slot. -/
theorem Told.based {path content : String} {v : Nat} {p : Place} {answer : Except Failure Reply}
    (told : Told ops limit trace k (.returned answer))
    (save : ops k = .save path content (some v)) (there : Files.confine? path = some p)
    (fits : content.toUTF8.toList.length ≤ limit) :
    ∃ before after, trace = before ++ ⟨k, .lock⟩ :: after ∧
      ((mutations ops p before).length ≠ v →
        answer = .error (.conflict path v (mutations ops p before).length)) ∧
      ((mutations ops p before).length = v →
        (∀ path' e n, answer ≠ .error (.conflict path' e n)) ∧
        ∀ file, answer = .ok (.version file) → file.version = v + 1) := by
  have accepts : (ops k).accept limit = .ok p := by
    rw [save]
    simp only [Operation.accept, Operation.place?, Operation.path, there]
    exact if_neg (Nat.not_lt.2 fits)
  rcases told with ⟨-, failure, refuses, -⟩ | ⟨p', accepts', answered⟩
  · cases accepts.symm.trans refuses
  · cases accepts.symm.trans accepts'
    obtain ⟨before, after, split, verdict, number⟩ := answered.entered
    have base : (ops k).base? = some v := by rw [save]; rfl
    refine ⟨before, after, split, fun stale => ?_, fun current => ⟨?_, fun file is => ?_⟩⟩
    · rw [verdict.stale v base stale.symm, save]
      rfl
    · refine verdict.current fun v' base' => ?_
      cases base.symm.trans base'
      exact current.symm
    · rw [number file is, current]

/-- What a load reports has been left by the write of that version. -/
theorem Told.loaded {reply : Reply} (told : Told ops limit trace k (.returned (.ok reply)))
    (loads : (ops k).isLoad) :
    ∃ file, reply = .content file ∧ (1 ≤ file.version → ∃ p j, (ops k).place? = some p ∧
      (mutations ops p trace)[file.version - 1]? = some j ∧
      (ops j).leaves = some file.content.toUTF8.toList) := by
  obtain ⟨p, owns, answered⟩ := told.answered_of_ok
  obtain ⟨before, -, -, verdict, -⟩ := answered.entered
  obtain ⟨file, rfl⟩ := (verdict.kind _ rfl).1 loads
  refine ⟨file, rfl, fun written => ?_⟩
  obtain ⟨j, counted, leaves⟩ := answered.loaded file rfl written
  exact ⟨p, j, owns, counted, leaves⟩

/-- Nothing of what the tasks write is lost, and nothing that they are told is wrong. -/
theorem updates_of_run (run : Run ops trace w) : Updates ops trace w := by
  have once := nodup_mutations run
  have told : ∀ {k answer}, w.phase k = .returned answer →
      Told ops w.limit trace k (.returned answer) := by
    intro k answer returned
    rw [← returned]
    exact run.told.2 k
  exact {
    once := once
    numbered := fun p i k answer at_ returned => (told returned).numbered (once p) at_
    recorded := fun k reply writes returned => (told returned).recorded writes
    based := fun k path content v p answer save there fits returned =>
      (told returned).based save there fits
    loaded := fun k reply loads returned => (told returned).loaded loads }

/-! ### A stale save that is too large -/

/-- Two saves that are based on no write, and a load. -/
def sampleOps : Nat → Operation
  | 0 => .save "a" "one" (some 0)
  | 1 => .save "a" "oversize" (some 0)
  | _ => .load "a"

/-- A store without files, in which files have up to four bytes. -/
def sampleStore : Store :=
  ⟨"", 4, "build", [], .ofDisk .empty 0⟩

theorem eq_ok_of_toOption {ε α : Type} {x : Except ε α} {a : α} (h : x.toOption = some a) :
    x = .ok a := by
  cases x with
  | error e => cases h
  | ok a' =>
      cases h
      rfl

theorem confine?_sample : Files.confine? "a" = some ["a"] := rfl

theorem perform_first :
    ((sampleOps 0).perform sampleStore).1 = .ok (.version ⟨"a", 1, 3, 1⟩) :=
  eq_ok_of_toOption (by decide +kernel)

theorem accept_second : (sampleOps 1).accept 4 = .error (.fileTooLarge "a" 8 4) := by
  have size : "oversize".toUTF8.toList.length = 8 := by decide +kernel
  simp only [sampleOps, Operation.accept, Operation.place?, Operation.path, confine?_sample, size]
  rfl

theorem perform_second :
    ((sampleOps 1).perform ((sampleOps 0).perform sampleStore).2).1 =
      .error (.fileTooLarge "a" 8 4) := by
  have limit : ((sampleOps 0).perform sampleStore).2.maxFileSize = 4 := by decide +kernel
  generalize ((sampleOps 0).perform sampleStore).2 = store at limit ⊢
  rw [Operation.perform, limit, accept_second]

/-- The first task goes on alone, and then the second. -/
theorem exists_run_sample : ∃ before after w₁ w, Run sampleOps before w₁ ∧
    Run sampleOps (before ++ after) w ∧ (∀ s ∈ before, s.task = 0) ∧
    w₁.phase 0 = .returned (.ok (.version ⟨"a", 1, 3, 1⟩)) ∧
    w.phase 0 = .returned (.ok (.version ⟨"a", 1, 3, 1⟩)) ∧
    w.phase 1 = .returned (.error (.fileTooLarge "a" 8 4)) := by
  obtain ⟨before, w₁, leads, own, saved, holds, same⟩ :
      Ends sampleOps (opened sampleStore.shown 4 sampleStore.volume) 0 .returned
        ((sampleOps 0).perform sampleStore) :=
    ends_perform (holds_opened rfl) (fun _ _ => rfl) rfl
  have alone : w₁.Alone 1 := by
    intro j _
    by_cases first : j = 0
    · rw [first, saved]
      rfl
    · rw [same j first]
      rfl
  obtain ⟨after, w, leads', -, refused, -, same'⟩ :
      Ends sampleOps w₁ 1 .returned ((sampleOps 1).perform ((sampleOps 0).perform sampleStore).2) :=
    ends_perform holds alone (same 1 (by decide))
  rw [perform_first] at saved
  rw [perform_second] at refused
  have calm : sampleStore.volume.Calm := by
    intro t mem
    cases mem
  refine ⟨before, after, w₁, w, ⟨_, _, _, Files.Disk.isTree_empty, calm, leads⟩,
    ⟨_, _, _, Files.Disk.isTree_empty, calm, leads.trans leads'⟩, own, saved, ?_, refused⟩
  rw [same' 0 (by decide), saved]

theorem updates_of_run_sample : ∃ trace w, Run sampleOps trace w ∧
    w.phase 0 = .returned (.ok (.version ⟨"a", 1, 3, 1⟩)) ∧ Updates sampleOps trace w := by
  obtain ⟨before, after, w₁, w, -, run, -, -, saved, -⟩ := exists_run_sample
  exact ⟨_, w, run, saved, updates_of_run run⟩

/-- A write was counted before the second task began. Its save is based on no write, and it is told
of its size alone. -/
theorem stale_save_without_conflict : ∃ before after w, Run sampleOps (before ++ after) w ∧
    (∀ s ∈ before, s.task ≠ 1) ∧ sampleOps 1 = .save "a" "oversize" (some 0) ∧
    (mutations sampleOps ["a"] before).length ≠ 0 ∧
    w.phase 1 = .returned (.error (.fileTooLarge "a" 8 4)) := by
  obtain ⟨before, after, w₁, w, run₁, run, own, saved, -, refused⟩ := exists_run_sample
  refine ⟨before, after, w, run, fun s mem => by simp [own s mem], rfl, ?_, refused⟩
  have told := run₁.told.2 0
  rw [saved] at told
  obtain ⟨p, owns, answered⟩ := told.answered_of_ok
  cases confine?_sample.symm.trans owns
  have counted := answered.counted _ rfl
  have := (List.getElem?_eq_some_iff.1 counted).1
  omega

end Workbench.Session.Loader.Shelf
