import Workbench.Project.Batch
import Workbench.Proofs.Files.Paths
import Workbench.Proofs.Files.Walking
import Workbench.Proofs.Pipeline.Undisturbed

/-!
# Batches

A batch is the compilation of every source of a project by itself. The settings can change while it
runs: a seal changes them, and so can anyone who holds the pipeline. All of that is for later, since
every request of a batch fixes the settings that held at its start.
-/

namespace Workbench.Project

open Files (Place Node Disk Fault)
open Pipeline (Mode Config Setting Refusal Request Result Compiler Run)

/-! ### Sources -/

/-- The names of sources: something in front of a dot and the extension. -/
theorem isSourceName_iff {name : String} :
    isSourceName name ↔ ∃ stem : String, stem ≠ "" ∧ name = stem ++ "." ++ sourceExtension := by
  have cuts : isSourceName name ↔
      ∃ stem, Files.splitExtension name = (stem, some sourceExtension) := by
    simp [isSourceName, Prod.ext_iff]
  rw [cuts]
  refine exists_congr fun stem => Files.splitExtension_eq_iff.trans ?_
  constructor
  · rintro ⟨same, -, -, proper⟩
    exact ⟨proper, same⟩
  · rintro ⟨proper, rfl⟩
    refine ⟨rfl, by decide, fun dots => ?_, proper⟩
    have length := congrArg (·.toList.length) dots
    simp [sourceExtension] at length

/-- A file of a project that is compiled: it and the directories on its way are not hidden, and it
is named as a source. -/
structure IsProjectSource (d : Disk) (top place : Place) : Prop where
  file : ∃ content modified, d.node? (top ++ place) = some (.file content modified)
  shown : ∀ name ∈ place, Files.isHidden name = false
  named : ∃ directory stem, stem ≠ "" ∧ place = directory ++ [stem ++ "." ++ sourceExtension]

theorem named_iff {place : Place} :
    place.getLast?.any isSourceName ↔
      ∃ directory stem, stem ≠ "" ∧ place = directory ++ [stem ++ "." ++ sourceExtension] := by
  constructor
  · intro named
    cases last : place.getLast? with
    | none => simp [last] at named
    | some name =>
        rw [last, Option.any_some] at named
        obtain ⟨stem, some, rfl⟩ := isSourceName_iff.1 named
        obtain ⟨directory, whole⟩ := List.getLast?_eq_some_iff.1 last
        exact ⟨directory, stem, some, whole⟩
  · rintro ⟨directory, stem, some, rfl⟩
    simpa using isSourceName_iff.2 ⟨stem, some, rfl⟩

theorem mem_sources_iff {d : Disk} (table : d.IsTable) {top place : Place} :
    place ∈ sources d top ↔ IsProjectSource d top place := by
  unfold sources
  rw [List.mem_map]
  constructor
  · rintro ⟨⟨p, node⟩, mem, rfl⟩
    obtain ⟨listed, source⟩ := List.mem_filter.1 mem
    obtain ⟨-, found⟩ := table.mem_below_iff.1 listed
    simp only [isSource, Bool.and_eq_true, Bool.not_eq_true', List.any_eq_false] at source
    obtain ⟨⟨file, shown⟩, named⟩ := source
    cases node with
    | directory => cases file
    | file content modified =>
        exact ⟨⟨content, modified, found⟩, fun name mem => by simpa using shown name mem,
          named_iff.1 named⟩
  · rintro ⟨⟨content, modified, file⟩, shown, named⟩
    have proper : place ≠ [] := by
      obtain ⟨directory, stem, -, rfl⟩ := named
      simp
    have hidden : place.any Files.isHidden = false := by simpa using shown
    refine ⟨(place, .file content modified), List.mem_filter.2 ⟨?_, ?_⟩, rfl⟩
    · exact table.mem_below_iff.2 ⟨proper, file⟩
    · simp only [isSource, hidden, named_iff.2 named]
      rfl

/-- The sources of a project, in strict order. -/
theorem sources_sorted {d : Disk} (table : d.IsTable) (top : Place) :
    (sources d top).Pairwise (· < ·) :=
  (table.below_sorted top).sublist (List.filter_sublist.map _)

/-! ### Settings that change -/

/-- A pipeline after calls that change its settings. -/
def retuned (p : Compiler) (calls : List Setting) : Compiler :=
  calls.foldl Compiler.trySet p

/-- A pipeline differs from another in no more than calls can change. -/
structure Retunes (p p' : Compiler) : Prop where
  rules : p'.rules = p.rules
  schedule : p'.schedule = p.schedule
  scheme : p'.scheme = p.scheme
  maxSourceSize : p'.config.maxSourceSize = p.config.maxSourceSize

theorem Retunes.refl (p : Compiler) : Retunes p p :=
  ⟨rfl, rfl, rfl, rfl⟩

theorem Retunes.trans {p q r : Compiler} (first : Retunes p q) (second : Retunes q r) :
    Retunes p r :=
  ⟨second.rules.trans first.rules, second.schedule.trans first.schedule,
    second.scheme.trans first.scheme, second.maxSourceSize.trans first.maxSourceSize⟩

theorem maxSourceSize_trySet (c : Config) (setting : Setting) :
    (c.trySet setting).maxSourceSize = c.maxSourceSize := by
  cases setting with
  | level value =>
      by_cases high : Config.maxLevel < value
      · simp only [Config.trySet, Config.set, if_pos high]
      · simp only [Config.trySet, Config.set, if_neg high]
  | quantumSafety value => rfl
  | gasOptimization value => rfl

theorem retunes_retuned (p : Compiler) (calls : List Setting) : Retunes p (retuned p calls) := by
  induction calls generalizing p with
  | nil => exact .refl p
  | cons setting rest ih =>
      have first : Retunes p (p.trySet setting) := ⟨rfl, rfl, rfl, maxSourceSize_trySet _ _⟩
      exact first.trans (ih (p.trySet setting))

/-- Calls cannot make settings impossible. -/
theorem isValid_retuned {p : Compiler} (valid : p.config.IsValid) (calls : List Setting) :
    (retuned p calls).config.IsValid := by
  induction calls generalizing p with
  | nil => exact valid
  | cons setting rest ih => exact ih (p := p.trySet setting) (valid.trySet setting)

/-- What a compilation does to its pipeline is what its seal calls for. -/
theorem retunes_compile (p : Compiler) (request : Request) :
    (p.compile request fun _ => false).2.config.maxSourceSize = p.config.maxSourceSize := by
  have sealing {step : Compiler → Seal.Effect → Compiler}
      (keeps : ∀ p effect, (step p effect).config.maxSourceSize = p.config.maxSourceSize)
      (effects : List Seal.Effect) (p : Compiler) :
      (effects.foldl step p).config.maxSourceSize = p.config.maxSourceSize := by
    induction effects generalizing p with
    | nil => rfl
    | cons effect rest ih => exact (ih (step p effect)).trans (keeps p effect)
  unfold Compiler.compile
  split
  · rfl
  · rfl
  · dsimp only
    split
    · refine sealing (fun p effect => ?_) p.scheme.effects p
      cases effect with
      | cancel => rfl
      | set setting => exact maxSourceSize_trySet _ _
    · rfl

/-! ### Single sources -/

/-- The result of a source by itself: that of its text, compiled under the settings of a pipeline
with nothing to cancel it, or the failure of a source that cannot be read. -/
def resultAlone (p : Compiler) (mode : Mode) (place : Place) :
    Except Fault String → Except Refusal Result
  | .ok text => (p.undisturbed.compile (.plain text mode) fun _ => false).1
  | .error fault => .ok ((Run.opened mode p.config).report (unreadableDiagnostic place fault)).fail

/-- A request that fixes all settings is not reached by changes of them. -/
theorem compile_requestUnder {p p' : Compiler} (retunes : Retunes p p') (text : String)
    (mode : Mode) :
    (p'.undisturbed.compile (requestUnder p.config text mode) fun _ => false).1 =
      (p.undisturbed.compile (.plain text mode) fun _ => false).1 := by
  obtain ⟨rules, schedule, scheme, size⟩ := retunes
  have fixed : (requestUnder p.config text mode).settings p'.undisturbed.config = p.config := by
    show (⟨p.config.optimizationLevel, p.config.quantumSafety, p.config.gasOptimization,
      p'.config.maxSourceSize⟩ : Config) = p.config
    rw [size]
  have own : (Request.plain text mode).settings p.undisturbed.config = p.config := rfl
  have payload (d : Pipeline.Draft) :
      d.payload? p'.undisturbed.scheme = d.payload? p.undisturbed.scheme := by
    simp only [Compiler.undisturbed, scheme]
  rw [Compiler.compile_of_quiet p'.cancels_undisturbed,
    Compiler.compile_of_quiet p.cancels_undisturbed, fixed, own]
  simp only [payload]
  simp only [Compiler.undisturbed, rules, schedule]
  rfl

/-- Under possible settings, a text that nothing cancels has a result. -/
theorem exists_resultAlone {p : Compiler} (valid : p.config.IsValid) (mode : Mode) (place : Place)
    (read : Except Fault String) : ∃ result, resultAlone p mode place read = .ok result := by
  cases read with
  | error fault => exact ⟨_, rfl⟩
  | ok text =>
      have own : ((Request.plain text mode).settings p.undisturbed.config).validate = .ok p.config :=
        Config.validate_eq_ok_iff.2 ⟨valid, rfl⟩
      have compiles := Compiler.compile_of_quiet p.cancels_undisturbed (.plain text mode)
      rw [own] at compiles
      exact ⟨_, compiles⟩

/-- However its pipeline has been retuned, a source of a batch has the result that it has alone. -/
theorem compileSource_alone {p p' : Compiler} (valid : p.config.IsValid) (retunes : Retunes p p')
    (mode : Mode) (d : Disk) (top place : Place) :
    ∃ result after, compileSource p.config mode d top place p' = (.ok ⟨place, result⟩, after) ∧
      Retunes p after ∧ resultAlone p mode place (readSource d top place) = .ok result := by
  unfold compileSource
  cases readSource d top place with
  | error fault => exact ⟨_, _, rfl, retunes, rfl⟩
  | ok text =>
      obtain ⟨result, alone⟩ := exists_resultAlone valid mode place (.ok text)
      have compiles := (compile_requestUnder retunes text mode).trans alone
      have size := retunes_compile p'.undisturbed (requestUnder p.config text mode)
      have quiet : { p' with scheme := p'.scheme.withoutCancel } = p'.undisturbed := rfl
      simp only [quiet]
      cases run : p'.undisturbed.compile (requestUnder p.config text mode) fun _ => false with
      | mk outcome after =>
          rw [run] at compiles size
          simp only at compiles size
          subst compiles
          exact ⟨result, _, rfl, ⟨retunes.rules, retunes.schedule, retunes.scheme,
            size.trans retunes.maxSourceSize⟩, alone⟩

/-! ### Whole batches -/

/-- A batch during which others change the settings: `calls` says what they do before a source is
compiled. -/
def compileSourcesAmid (calls : Place → List Setting) (settings : Config) (mode : Mode) (d : Disk)
    (top : Place) (p : Compiler) : List Place → Except Refusal (List FileResult) × Compiler
  | [] => (.ok [], p)
  | place :: rest =>
      match compileSource settings mode d top place (retuned p (calls place)) with
      | (.error refusal, p) => (.error refusal, p)
      | (.ok first, p) =>
          match compileSourcesAmid calls settings mode d top p rest with
          | (.error refusal, p) => (.error refusal, p)
          | (.ok others, p) => (.ok (first :: others), p)

/-- The compilation of a project during which others change the settings. -/
def compileProjectAmid (calls : Place → List Setting) (p : Compiler) (d : Disk)
    (path shown : String) (mode : Mode) : Except Refusal (List FileResult) × Compiler :=
  match sourcesAt d path with
  | .error fault => (.error (unreadable shown fault), p)
  | .ok (top, places) => compileSourcesAmid calls p.config mode d top p places

theorem compileSourcesAmid_alone (settings : Config) (mode : Mode) (d : Disk) (top : Place)
    (p : Compiler) (places : List Place) :
    compileSourcesAmid (fun _ => []) settings mode d top p places =
      compileSources settings mode d top p places := by
  induction places generalizing p with
  | nil => rfl
  | cons place rest ih =>
      unfold compileSourcesAmid compileSources
      cases first : compileSource settings mode d top place p with
      | mk outcome after =>
          cases outcome with
          | error refusal => simp only [retuned, List.foldl_nil, first]
          | ok result =>
              cases others : compileSources settings mode d top after rest with
              | mk outcome behind =>
                  cases outcome <;> simp only [retuned, List.foldl_nil, first, ih, others]

/-- Without others, that is the compilation of the project. -/
theorem compileProjectAmid_alone (p : Compiler) (d : Disk) (path shown : String) (mode : Mode) :
    compileProjectAmid (fun _ => []) p d path shown mode = compileProject p d path shown mode := by
  unfold compileProjectAmid compileProject
  cases sourcesAt d path with
  | error fault => rfl
  | ok found => exact compileSourcesAmid_alone p.config mode d found.1 p found.2

theorem compileSourcesAmid_each {p : Compiler} (valid : p.config.IsValid) (mode : Mode)
    (d : Disk) (top : Place) (calls : Place → List Setting) {p' : Compiler} (retunes : Retunes p p')
    (places : List Place) :
    ∃ results after,
      compileSourcesAmid calls p.config mode d top p' places = (.ok results, after) ∧
      results.map (·.place) = places ∧
      ∀ r ∈ results, resultAlone p mode r.place (readSource d top r.place) = .ok r.result := by
  induction places generalizing p' with
  | nil => exact ⟨[], p', rfl, rfl, fun r mem => absurd mem List.not_mem_nil⟩
  | cons place rest ih =>
      have called := retunes.trans (retunes_retuned p' (calls place))
      obtain ⟨first, behind, compiles, retunes, alone⟩ :=
        compileSource_alone valid called mode d top place
      obtain ⟨others, after, runs, places, each⟩ := ih retunes
      refine ⟨⟨place, first⟩ :: others, after, ?_, ?_, ?_⟩
      · simp only [compileSourcesAmid, compiles, runs]
      · rw [List.map_cons, places]
      · exact List.forall_mem_cons.2 ⟨alone, each⟩

/-- A project of an empty source, one that is no text, and a hidden one. -/
def threeSources : Disk :=
  (((Disk.empty.put ["p"] .directory).put ["p", "b.usdtg"] (.file [0xff] 0)).put ["p", "a.usdtg"]
    (.file [] 0)).put ["p", ".c.usdtg"] (.file [] 0)

theorem isTree_threeSources : threeSources.IsTree := by
  have top : (Disk.empty.put ["p"] .directory).IsTree :=
    Disk.isTree_empty.put (by decide) rfl (.inl rfl)
  have unreadable : ((Disk.empty.put ["p"] .directory).put ["p", "b.usdtg"]
      (.file [0xff] 0)).IsTree := top.put (by decide) rfl (.inr (by decide))
  have empty := unreadable.put (by decide : ["p", "a.usdtg"] ≠ []) rfl
    (.inr (by decide) : Node.file [] 0 = .directory ∨ _)
  exact empty.put (by decide) rfl (.inr (by decide))

theorem isTable_threeSources : threeSources.IsTable :=
  (((Disk.isTable_empty.put ["p"] _).put ["p", "b.usdtg"] _).put ["p", "a.usdtg"] _).put
    ["p", ".c.usdtg"] _

end Workbench.Project
