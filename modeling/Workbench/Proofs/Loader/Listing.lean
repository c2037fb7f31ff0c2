import Workbench.Session.Coordinator
import Workbench.Proofs.Files.Paths
import Workbench.Proofs.Files.Walking
import Workbench.Proofs.Loader.Effects

/-!
# Lists of files

A list has the files of a project in strict order, without hidden ones. It leaves out what lies in
the directory for artifacts if the settings spell that directory by names alone. Other spellings are
accepted too, and artifacts are stored where they lead, but a walk does not know the directory again
and lists what is in it.
-/

namespace Workbench.Session

open Files (Fault Place Node Disk)
open Wasm (Bytes)

/-! ### The directory for artifacts -/

namespace Settings

variable {settings : Settings} {names : Place}

/-- Where artifacts are stored; none if that is not below the root. -/
def artifactDirectory? (settings : Settings) : Option Place :=
  Disk.endOf [] ((Files.splitSlashes settings.buildDir.toList).map Disk.stepOf)

/-- The directory for artifacts is spelled by names alone, which a walk can compare. -/
def SpellsOut (settings : Settings) (names : Place) : Prop :=
  Files.components settings.buildDir = names.map .name

theorem hasBuildDir_of_validate (valid : settings.validate = .ok settings) :
    settings.hasBuildDir = true := by
  unfold validate at valid
  cases problem : settings.problem? with
  | some failure =>
      rw [problem] at valid
      cases valid
  | none =>
      unfold problem? at problem
      split at problem
      · cases problem
      · split at problem
        · cases problem
        · split at problem
          · cases problem
          · simp_all

/-- Names that spell the directory out are where it is. -/
theorem SpellsOut.artifactDirectory? (spelled : settings.SpellsOut names)
    (valid : settings.validate = .ok settings) :
    settings.artifactDirectory? = some names ∧ names ≠ [] := by
  have named := hasBuildDir_of_validate valid
  simp only [hasBuildDir, Bool.and_eq_true, Bool.not_eq_true'] at named
  exact Files.endOf_of_components named.2 (by simpa using named.1) spelled

theorem SpellsOut.isBuilt_iff (spelled : settings.SpellsOut names) (proper : names ≠ [])
    (place : Place) : Loader.isBuilt settings.buildDir place = true ↔ names <+: place := by
  rw [Loader.isBuilt, Files.exactNames?_eq_some_iff.2 spelled]
  simp [proper]

theorem isBuilt_of_not_spelled (unspelled : ¬ ∃ names, settings.SpellsOut names) (place : Place) :
    Loader.isBuilt settings.buildDir place = false := by
  unfold Loader.isBuilt
  split
  · next names exact => exact absurd ⟨names, Files.exactNames?_eq_some_iff.1 exact⟩ unspelled
  · rfl

end Settings

namespace Coordinator

variable {s s' : Store} {place dir : Place}

theorem exists_of_bind {α β : Type} {x : Action α} {f : α → Action β} {b : β}
    (h : (x >>= f) s = (.ok b, s')) : ∃ a s₁, x s = (.ok a, s₁) ∧ f a s₁ = (.ok b, s') := by
  rw [Loader.bind_apply] at h
  split at h
  · next a s₁ first => exact ⟨a, s₁, first, h⟩
  · cases h

/-- The names of the artifacts of a source. -/
def artifactNames (filePath : String) : List String :=
  [artifactStem filePath ++ ".wasm", artifactStem filePath ++ ".abi.json"]

/-- A call at a place on the disk that succeeds has made its change. -/
theorem act_of_changeAt {shown : String} {act : Place → Disk → Nat → Except Fault Disk}
    (succeeds : changeAt (some place) shown act s = (.ok (), s')) :
    ∃ now, act place s.volume.disk now = .ok s'.volume.disk := by
  unfold changeAt at succeeds
  obtain ⟨answer, s₁, changes, succeeds⟩ := exists_of_bind succeeds
  rw [Loader.change_apply] at changes
  cases changes
  rcases s.volume.change_cases (act place) with ⟨now, told, acts⟩ | ⟨fault, told, -⟩
  · rw [told] at succeeds
    cases succeeds
    exact ⟨now, acts⟩
  · rw [told] at succeeds
    cases succeeds

/-- Artifacts that were stored are in the directory for them. -/
theorem stored_of_persist {settings : Settings} {filePath : String} {result : Pipeline.Result}
    {artifacts : Artifacts} (leads : settings.artifactDirectory? = some dir)
    (stores : persist settings filePath result s = (.ok artifacts, s')) :
    ∃ now now', s'.volume.disk.node? (dir ++ [artifactStem filePath ++ ".wasm"]) =
        some (.file result.bytecode now) ∧
      s'.volume.disk.node? (dir ++ [artifactStem filePath ++ ".abi.json"]) =
        some (.file (Codegen.interfaceJson result.interface).pretty.toUTF8.toList now') := by
  unfold Settings.artifactDirectory? at leads
  unfold persist at stores
  simp only [leads, Option.map_some] at stores
  rw [Loader.bind_apply, Loader.get_apply] at stores
  dsimp only at stores
  obtain ⟨_, s₁, -, stores⟩ := exists_of_bind stores
  obtain ⟨_, s₂, wrote, stores⟩ := exists_of_bind stores
  obtain ⟨_, s₃, wrote', stores⟩ := exists_of_bind stores
  rw [Loader.pure_apply] at stores
  cases stores
  obtain ⟨now, wrote⟩ := act_of_changeAt wrote
  obtain ⟨now', wrote'⟩ := act_of_changeAt wrote'
  obtain ⟨-, -, disk⟩ := Disk.eq_put_of_write wrote
  obtain ⟨-, -, disk'⟩ := Disk.eq_put_of_write wrote'
  have apart : dir ++ [artifactStem filePath ++ ".wasm"] ≠
      dir ++ [artifactStem filePath ++ ".abi.json"] := by
    simp [String.append_right_inj]
  refine ⟨now, now', ?_, ?_⟩
  · rw [disk', Disk.node?_put_of_ne _ apart, disk, Disk.node?_put_self _ (by simp)]
  · rw [disk', Disk.node?_put_self _ (by simp)]

theorem exists_artifact {settings : Settings} {filePath : String} {result : Pipeline.Result}
    {artifacts : Artifacts} (leads : settings.artifactDirectory? = some dir)
    (stores : persist settings filePath result s = (.ok artifacts, s')) {name : String}
    (mem : name ∈ artifactNames filePath) :
    ∃ content modified, s'.volume.disk.node? (dir ++ [name]) = some (.file content modified) := by
  obtain ⟨now, now', wasm, abi⟩ := stored_of_persist leads stores
  rcases List.mem_pair.1 mem with rfl | rfl
  · exact ⟨_, now, wasm⟩
  · exact ⟨_, now', abi⟩

end Coordinator

namespace Loader

variable {settings : Settings} {d : Disk} {place names : Place} {f : FileEntry}

/-! ### What a list shows -/

/-- No name on the disk has a slash. -/
def IsNamed (d : Disk) : Prop :=
  ∀ entry ∈ d.entries, ∀ name ∈ entry.1, '/' ∉ name.toList

/-- The entry that a file has in a list, if it is in one. Hidden files have none, and neither have
files in hidden directories. -/
def Visible (d : Disk) (place : Place) (f : FileEntry) : Prop :=
  (∀ name ∈ place, Files.isHidden name = false) ∧ ∃ content modified,
    d.node? place = some (.file content modified) ∧ f = ⟨place.text, modified, content.length⟩

/-- A place lies in a directory. -/
def LiesIn (place dir : Place) : Prop :=
  ∃ rest, rest ≠ [] ∧ place = dir ++ rest

theorem exists_of_entry? {node : Node} (shown : entry? place node = some f) :
    ∃ content modified, node = .file content modified ∧
      f = ⟨place.text, modified, content.length⟩ := by
  cases node with
  | directory => cases shown
  | file content modified =>
      cases shown
      exact ⟨content, modified, rfl, rfl⟩

theorem mem_entries_iff (table : d.IsTable) (buildDir : String) :
    f ∈ entries buildDir d ↔ ∃ place, Visible d place f ∧ isBuilt buildDir place = false := by
  unfold entries
  rw [List.mem_mergeSort, List.mem_filterMap]
  constructor
  · rintro ⟨⟨place, node⟩, mem, entry⟩
    obtain ⟨below, listed⟩ := List.mem_filter.1 mem
    obtain ⟨-, found⟩ := table.mem_below_iff.1 below
    obtain ⟨content, modified, rfl, rfl⟩ := exists_of_entry? entry
    simp only [isListed, Bool.and_eq_true, Bool.not_eq_true', List.any_eq_false] at listed
    refine ⟨place, ⟨fun name mem => by simpa using listed.1 name mem, ?_⟩, listed.2⟩
    exact ⟨content, modified, found, rfl⟩
  · rintro ⟨place, ⟨shown, content, modified, found, rfl⟩, outside⟩
    have proper : place ≠ [] := fun root => by simp [root] at found
    refine ⟨(place, .file content modified), List.mem_filter.2 ⟨?_, ?_⟩, rfl⟩
    · exact table.mem_below_iff.2 ⟨proper, found⟩
    · simp only [isListed, outside]
      simpa using shown

/-- A file has a proper place without slashes in its names. -/
theorem plain_of_file (table : d.IsTable) (named : IsNamed d) {content : Bytes} {modified : Nat}
    (found : d.node? place = some (.file content modified)) :
    place ≠ [] ∧ ∀ name ∈ place, '/' ∉ name.toList := by
  have proper : place ≠ [] := fun root => by simp [root] at found
  exact ⟨proper, named _ ((table.node?_eq_some_iff proper).1 found)⟩

/-- Files with the same path are the same. -/
theorem eq_of_text_eq (table : d.IsTable) (named : IsNamed d) {q : Place} {content content' : Bytes}
    {modified modified' : Nat} (found : d.node? place = some (.file content modified))
    (found' : d.node? q = some (.file content' modified')) (same : place.text = q.text) :
    place = q := by
  obtain ⟨proper, plain⟩ := plain_of_file table named found
  obtain ⟨proper', plain'⟩ := plain_of_file table named found'
  exact Files.text_injective proper proper' plain plain' same

/-- Entries of different places have different paths. -/
theorem paths_apart (table : d.IsTable) (named : IsNamed d) (keep : Place × Node → Bool) :
    (((d.below []).filter keep).filterMap fun (place, node) => entry? place node).Pairwise
      fun a b => a.path ≠ b.path := by
  have places : ((d.below []).filter keep).Pairwise fun a b => a.1 < b.1 :=
    (List.pairwise_map.1 (table.below_sorted [])).sublist List.filter_sublist
  rw [List.pairwise_filterMap]
  refine places.imp_of_mem fun {a b} mem mem' less f shown f' shown' same => ?_
  obtain ⟨place, node⟩ := a
  obtain ⟨place', node'⟩ := b
  obtain ⟨content, modified, rfl, rfl⟩ := exists_of_entry? shown
  obtain ⟨content', modified', rfl, rfl⟩ := exists_of_entry? shown'
  have found : d.node? place = some (.file content modified) :=
    (table.mem_below_iff.1 (List.mem_filter.1 mem).1).2
  have found' : d.node? place' = some (.file content' modified') :=
    (table.mem_below_iff.1 (List.mem_filter.1 mem').1).2
  obtain rfl := eq_of_text_eq table named found found' same
  exact List.lt_irrefl _ less

theorem not_before_iff {a b : FileEntry} :
    (!decide (b.path < a.path)) = true ↔ ¬ b.path < a.path := by
  rw [Bool.not_eq_true', decide_eq_false_iff_not]

/-- The paths in a list increase. -/
theorem entries_sorted (table : d.IsTable) (named : IsNamed d) (buildDir : String) :
    (entries buildDir d).Pairwise fun a b => a.path < b.path := by
  have apart : (entries buildDir d).Pairwise fun a b => a.path ≠ b.path :=
    ((List.mergeSort_perm _ _).pairwise_iff fun ne => Ne.symm ne).2 (paths_apart table named _)
  have sorted : (entries buildDir d).Pairwise fun a b => ¬ b.path < a.path := by
    refine (List.pairwise_mergeSort (fun a b c ab bc => ?_) (fun a b => ?_) _).imp not_before_iff.1
    · exact not_before_iff.2 (String.le_trans (not_before_iff.1 ab) (not_before_iff.1 bc))
    · rw [Bool.or_eq_true]
      exact (String.le_total a.path b.path).imp not_before_iff.2 not_before_iff.2
  refine sorted.imp₂ (fun a b le ne => ?_) apart
  exact String.not_le.1 fun ge => ne (String.le_antisymm le ge)

theorem list_of_calm {s : Store} (calm : s.volume.Calm) :
    (list s).1 = .ok (entries s.buildDir s.volume.disk) := by
  have answered := (calm.query fun d => .ok (entries s.buildDir d)).1
  simp only [list, bind_apply, get_apply, query_apply, answered, orFail_apply]

/-! ### Lists under settings -/

/-- The file at a place is in a list. -/
def Has (files : List FileEntry) (place : Place) : Prop :=
  ∃ f ∈ files, f.path = place.text

/-- What a list has of the files of a store, under the settings of a session. -/
structure Lists (settings : Settings) (s : Store) (files : List FileEntry) : Prop where
  sorted : files.Pairwise fun a b => a.path < b.path
  /-- Where the settings spell the directory for artifacts out, the list has all that is visible and
  does not lie in it. -/
  sources : (∃ names, settings.SpellsOut names) → ∃ dir, settings.artifactDirectory? = some dir ∧
    ∀ f, f ∈ files ↔
      ∃ place, Visible s.volume.disk place f ∧ ¬ LiesIn place dir ∧ place ≠ dir
  /-- Otherwise it has all that is visible. -/
  everything : (¬ ∃ names, settings.SpellsOut names) →
    ∀ f, f ∈ files ↔ ∃ place, Visible s.volume.disk place f
  /-- Artifacts that have just been stored are then in the list, unless they are hidden. -/
  artifacts : ∀ filePath result before told dir, settings.artifactDirectory? = some dir →
    Coordinator.persist settings filePath result before = (.ok told, s) →
    ∀ name ∈ Coordinator.artifactNames filePath,
      (∀ part ∈ dir ++ [name], Files.isHidden part = false) →
        (Has files (dir ++ [name]) ↔ ¬ ∃ names, settings.SpellsOut names)

theorem not_isPrefix_iff {dir : Place} : ¬ dir <+: place ↔ ¬ LiesIn place dir ∧ place ≠ dir := by
  constructor
  · refine fun outside => ⟨?_, ?_⟩
    · rintro ⟨rest, -, rfl⟩
      exact outside (List.prefix_append dir rest)
    · rintro rfl
      exact outside List.prefix_rfl
  · rintro ⟨below, apart⟩ ⟨rest, rfl⟩
    by_cases none : rest = []
    · exact apart (by rw [none, List.append_nil])
    · exact below ⟨rest, none, rfl⟩

theorem mem_entries_of_spelled (table : d.IsTable) (spelled : settings.SpellsOut names)
    (proper : names ≠ []) : f ∈ entries settings.buildDir d ↔
      ∃ place, Visible d place f ∧ ¬ LiesIn place names ∧ place ≠ names := by
  rw [mem_entries_iff table]
  refine exists_congr fun place => and_congr_right fun _ => ?_
  rw [← not_isPrefix_iff, ← spelled.isBuilt_iff proper, Bool.not_eq_true]

theorem mem_entries_of_not_spelled (table : d.IsTable)
    (unspelled : ¬ ∃ names, settings.SpellsOut names) :
    f ∈ entries settings.buildDir d ↔ ∃ place, Visible d place f := by
  rw [mem_entries_iff table]
  refine exists_congr fun place => and_iff_left ?_
  exact Settings.isBuilt_of_not_spelled unspelled place

/-- A list has the file at a place if one of its entries is of this file. -/
theorem has_entries_iff (table : d.IsTable) (named : IsNamed d) {content : Bytes} {modified : Nat}
    (found : d.node? place = some (.file content modified)) (buildDir : String) :
    Has (entries buildDir d) place ↔
      (∀ name ∈ place, Files.isHidden name = false) ∧ isBuilt buildDir place = false := by
  constructor
  · rintro ⟨f, mem, same⟩
    obtain ⟨q, ⟨shown, content', modified', found', rfl⟩, outside⟩ :=
      (mem_entries_iff table buildDir).1 mem
    rw [eq_of_text_eq table named found found' same.symm]
    exact ⟨shown, outside⟩
  · rintro ⟨shown, outside⟩
    exact ⟨_, (mem_entries_iff table buildDir).2
      ⟨place, ⟨shown, content, modified, found, rfl⟩, outside⟩, rfl⟩

/-- A file in the directory for artifacts is in a list if the list does not know the directory
again. -/
theorem has_artifact_iff {dir : Place} {name : String} {content : Bytes} {modified : Nat}
    (valid : settings.validate = .ok settings) (table : d.IsTable) (named : IsNamed d)
    (leads : settings.artifactDirectory? = some dir)
    (found : d.node? (dir ++ [name]) = some (.file content modified))
    (shown : ∀ part ∈ dir ++ [name], Files.isHidden part = false) :
    Has (entries settings.buildDir d) (dir ++ [name]) ↔ ¬ ∃ names, settings.SpellsOut names := by
  rw [has_entries_iff table named found, and_iff_right shown]
  constructor
  · rintro outside ⟨names, spelled⟩
    obtain ⟨leads', proper⟩ := spelled.artifactDirectory? valid
    cases leads.symm.trans leads'
    rw [(spelled.isBuilt_iff proper _).2 (List.prefix_append dir _)] at outside
    cases outside
  · exact fun unspelled => Settings.isBuilt_of_not_spelled unspelled _

/-- A list has the files that are not hidden, in strict order, without the directory for artifacts
if that is spelled by names alone. -/
theorem list_under_settings (settings : Settings) (valid : settings.validate = .ok settings)
    (s : Store) (same : s.buildDir = settings.buildDir) (calm : s.volume.Calm)
    (table : s.volume.disk.IsTable) (named : IsNamed s.volume.disk) :
    ∃ files, (list s).1 = .ok files ∧ Lists settings s files := by
  refine ⟨entries settings.buildDir s.volume.disk, by rw [list_of_calm calm, same], ?_⟩
  exact {
    sorted := entries_sorted table named settings.buildDir
    sources := by
      rintro ⟨names, spelled⟩
      obtain ⟨leads, proper⟩ := spelled.artifactDirectory? valid
      exact ⟨names, leads, fun f => mem_entries_of_spelled table spelled proper⟩
    everything := fun unspelled f => mem_entries_of_not_spelled table unspelled
    artifacts := fun _ _ _ _ _ leads stores _ mem shown => by
      obtain ⟨content, modified, found⟩ := Coordinator.exists_artifact leads stores mem
      exact has_artifact_iff valid table named leads found shown }

/-! ### A dot in front -/

/-- A source and something built. -/
def builtDisk : Disk :=
  ⟨[(["a.usdtg"], .file [120] 9), (["build"], .directory), (["build", "c.wasm"], .file [] 9)]⟩

def builtStore (settings : Settings) : Store :=
  ⟨"", settings.maxFileSize, settings.buildDir, [], .ofDisk builtDisk 9⟩

theorem isTable_built : builtDisk.IsTable := by
  unfold Disk.IsTable builtDisk
  decide

theorem isNamed_built : IsNamed builtDisk := by
  unfold IsNamed builtDisk
  decide +kernel

theorem list_built (settings : Settings) : ∃ files, (list (builtStore settings)).1 = .ok files ∧
    (Has files ["a.usdtg"] ↔ isBuilt settings.buildDir ["a.usdtg"] = false) ∧
    (Has files ["build", "c.wasm"] ↔ isBuilt settings.buildDir ["build", "c.wasm"] = false) := by
  have calm : (builtStore settings).volume.Calm := nofun
  refine ⟨_, list_of_calm calm, ?_, ?_⟩
  · exact (has_entries_iff isTable_built isNamed_built rfl _).trans (and_iff_right (by decide))
  · exact (has_entries_iff isTable_built isNamed_built rfl _).trans (and_iff_right (by decide))

theorem list_under_settings_standard :
    Settings.standard.validate = .ok .standard ∧ ∃ files,
      (list (builtStore .standard)).1 = .ok files ∧ Has files ["a.usdtg"] ∧
        ¬ Has files ["build", "c.wasm"] ∧ Lists .standard (builtStore .standard) files := by
  obtain ⟨files, told, lists⟩ := list_under_settings .standard rfl (builtStore .standard) rfl
    nofun isTable_built isNamed_built
  obtain ⟨files', told', source, built⟩ := list_built .standard
  cases told.symm.trans told'
  have known : isBuilt Settings.standard.buildDir ["build", "c.wasm"] = true := by
    decide +kernel
  refine ⟨rfl, files, told, source.2 (by decide +kernel), fun has => ?_, lists⟩
  cases known.symm.trans (built.1 has)

/-- Settings that spell the directory for artifacts with a dot in front. -/
def dottedSettings : Settings :=
  { Settings.standard with buildDir := "./build" }

/-- The settings are accepted and artifacts are stored in the directory, and a list has what is in
it. -/
theorem dotted_directory_listed : dottedSettings.validate = .ok dottedSettings ∧
    dottedSettings.artifactDirectory? = some ["build"] ∧ LiesIn ["build", "c.wasm"] ["build"] ∧
    ∃ files, (list (builtStore dottedSettings)).1 = .ok files ∧ Has files ["build", "c.wasm"] := by
  obtain ⟨files, told, -, built⟩ := list_built dottedSettings
  exact ⟨rfl, by decide +kernel, ⟨["c.wasm"], nofun, rfl⟩, files, told,
    built.2 (by decide +kernel)⟩

end Loader

end Workbench.Session
