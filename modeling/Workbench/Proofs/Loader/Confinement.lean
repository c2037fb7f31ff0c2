import Workbench.Proofs.Files.Spellings
import Workbench.Proofs.Loader.Counting

/-!
# Paths below the root

A path is taken as the place of its names or refused. No place is outside the root or the root
itself, the text of a place is taken as that place, and spellings of one path come to one place. So
tasks that spell a path in different ways share its slot: they wait for each other, and their writes
are counted together.
-/

namespace Workbench.Session.Loader

open Files (Place Leaves SamePath components namesIn)
open Session.Loader.Shelf (Reaches mutations)

variable {path other : String} {s : Store} {place : Place}

/-! ### Confinement -/

theorem confine_of_some (confined : Files.confine? path = some place) (s : Store) :
    confine path s = (.ok place, s) := by
  rw [confine, confined]
  rfl

theorem confine_of_none (confined : Files.confine? path = none) (s : Store) :
    confine path s = (.error (.badPath path), s) := by
  rw [confine, confined]
  rfl

theorem confine_eq_ok_iff :
    confine path s = (.ok place, s) ↔ Files.confine? path = some place := by
  refine ⟨fun taken => ?_, fun confined => confine_of_some confined s⟩
  cases confined : Files.confine? path with
  | none =>
      rw [confine_of_none confined] at taken
      cases taken
  | some there =>
      rw [confine_of_some confined] at taken
      cases taken
      rfl

theorem confine_eq_error_iff : confine path s = (.error (.badPath path), s) ↔ Leaves path := by
  rw [← Files.confine?_eq_none_iff]
  refine ⟨fun refused => ?_, fun confined => confine_of_none confined s⟩
  cases confined : Files.confine? path with
  | none => rfl
  | some there =>
      rw [confine_of_some confined] at refused
      cases refused

theorem resolve_of_some (confined : Files.confine? path = some place) (s : Store) :
    resolve path s = (.ok (Files.joinText s.root place.text), s) := by
  have shown : s.shown place = Files.joinText s.root place.text :=
    if_neg (Files.isProper_of_confine? confined).proper
  rw [resolve, bind_apply, confine_of_some confined, ← shown]
  rfl

theorem resolve_of_none (confined : Files.confine? path = none) (s : Store) :
    resolve path s = (.error (.badPath path), s) := by
  rw [resolve, bind_apply, confine_of_none confined]

/-! ### Sharing -/

/-- Tasks with the one path and tasks with the other have one slot, one lock and one version. -/
structure Shares (path other : String) : Prop where
  slot : ∀ {ops trace w j k p q c d}, Reaches ops trace w → (ops j).path = path →
    (ops k).path = other → (w.phase j).Uses p c → (w.phase k).Uses q d → p = q ∧ c = d
  /-- No two tasks are at work at once. -/
  lock : ∀ {ops trace w j k p q}, Reaches ops trace w → (ops j).path = path →
    (ops k).path = other → (w.phase j).WorksAt p → (w.phase k).WorksAt q → j = k
  /-- The version that either path finds is the number of writes with any spelling of them. -/
  version : ∀ {ops trace w p c slot}, Reaches ops trace w → Files.confine? path = some p →
    w.table p = some c → w.slots[c]? = some slot → Files.confine? other = some p ∧
      slot.version = (mutations ops p trace).length ∧
      ∀ i, i ∈ mutations ops p trace ↔ ⟨i, .commit⟩ ∈ trace ∧ SamePath other (ops i).path

/-- Operations on spellings of one path are done at one place. -/
theorem place_eq_of_samePath {o o' : Operation} {p q : Place} (same : SamePath o.path o'.path)
    (there : o.place? = some p) (there' : o'.place? = some q) : p = q :=
  Option.some.inj (there.symm.trans (same.confine?_eq.trans there'))

theorem shares_of_samePath (same : SamePath path other) : Shares path other where
  slot := by
    rintro ops trace w j k p q c d reaches rfl rfl uses uses'
    obtain ⟨entry, owns⟩ := reaches.kept.placed j p c uses
    obtain ⟨entry', owns'⟩ := reaches.kept.placed k q d uses'
    have there := place_eq_of_samePath same owns owns'
    subst there
    exact ⟨rfl, Option.some.inj (entry.symm.trans entry')⟩
  lock := by
    rintro ops trace w j k p q reaches rfl rfl works works'
    have there := place_eq_of_samePath same (reaches.kept.filed.place?_of_worksAt works)
      (reaches.kept.filed.place?_of_worksAt works')
    subst there
    exact reaches.kept.filed.sole works works'
  version := by
    intro ops trace w p c slot reaches confined entry found
    have confined' : Files.confine? other = some p := same.confine?_eq ▸ confined
    refine ⟨confined', reaches.kept.counted p c slot entry found, fun i => ?_⟩
    rw [Shelf.mem_mutations, ← Files.confine?_eq_iff_samePath confined']
    rfl

/-! ### Every path -/

/-- What becomes of a path, in every spelling and whatever is in the store. -/
structure Confined (path : String) : Prop where
  refused : ∀ s, confine path s = (.error (.badPath path), s) ↔ Leaves path
  taken : ¬ Leaves path → ∀ s, confine path s = (.ok (namesIn path), s)
  proper : ¬ Leaves path → (namesIn path).IsProper
  outside : Leaves path → ∀ s, resolve path s = (.error (.badPath path), s)
  /-- What is resolved has the names after the components of the root. -/
  below : ¬ Leaves path → ∀ s, ∃ shown, resolve path s = (.ok shown, s) ∧
    components shown = components s.root ++ (namesIn path).map .name
  text : ¬ Leaves path → ∀ s, confine (namesIn path).text s = (.ok (namesIn path), s)
  alike : ∀ other, SamePath path other → (Leaves path ↔ Leaves other) ∧ Shares path other
  /-- Only other spellings come to the same place. -/
  spellings : ¬ Leaves path → ∀ other s,
    confine other s = (.ok (namesIn path), s) ↔ SamePath path other

theorem paths_are_confined (path : String) : Confined path where
  refused _ := confine_eq_error_iff
  taken stays := confine_of_some (Files.confine?_of_stays stays)
  proper stays := Files.isProper_of_confine? (Files.confine?_of_stays stays)
  outside leaves := resolve_of_none (Files.confine?_eq_none_iff.2 leaves)
  below stays s := by
    have confined := Files.confine?_of_stays stays
    exact ⟨_, resolve_of_some confined s,
      Files.components_joinText (Files.isProper_of_confine? confined) s.root⟩
  text stays := by
    have proper := Files.isProper_of_confine? (Files.confine?_of_stays stays)
    exact confine_of_some (Files.confine?_text proper)
  alike other same := by
    refine ⟨?_, shares_of_samePath same⟩
    rw [← Files.confine?_eq_none_iff, ← Files.confine?_eq_none_iff, same.confine?_eq]
  spellings stays other s := by
    rw [confine_eq_ok_iff]
    exact Files.confine?_eq_iff_samePath (Files.confine?_of_stays stays)

end Workbench.Session.Loader
