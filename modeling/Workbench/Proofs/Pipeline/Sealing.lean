import Workbench.Proofs.Gas.Prices
import Workbench.Proofs.Pipeline.Modes

/-!
# Sealed and unsealed compilations

Two compilations of one request, one with a seal and one without, make the same draft. A seal is a
custom section at the end of a module, so its bytes come behind all others, and neither the validity
nor the price of the module depends on it. The one thing that a seal can spoil is the format: it has
no room for a section the length of which takes more than 32 bits.
-/

namespace Workbench.Wasm

/-- The bytes of a custom section that its length counts. -/
def Custom.content (c : Custom) : Bytes :=
  encodeString c.name ++ c.data

namespace Module

variable (m : Module) (c : Custom)

theorem allCustoms_addCustom : (m.addCustom c).allCustoms = m.allCustoms ++ [c] := by
  simp [allCustoms, addCustom]

theorem sections_addCustom : (m.addCustom c).sections = m.sections ++ [⟨0, c.content⟩] := by
  rw [sections, allCustoms_addCustom, List.map_append, ← List.append_assoc]
  rfl

/-- One more custom section has to fit itself. -/
theorem fits_addCustom :
    (m.addCustom c).Fits ↔
      m.Fits ∧ c.content.length < indexLimit ∧ c.name.utf8ByteSize ≤ maxName := by
  constructor
  · rintro ⟨sections, customs, imports, code⟩
    rw [sections_addCustom, List.forall_mem_append, List.forall_mem_singleton] at sections
    rw [allCustoms_addCustom, List.forall_mem_append, List.forall_mem_singleton] at customs
    exact ⟨⟨sections.1, customs.1, imports, code⟩, sections.2, customs.2⟩
  · rintro ⟨⟨sections, customs, imports, code⟩, length, name⟩
    refine ⟨?_, ?_, imports, code⟩
    · rw [sections_addCustom, List.forall_mem_append, List.forall_mem_singleton]
      exact ⟨sections, length⟩
    · rw [allCustoms_addCustom, List.forall_mem_append, List.forall_mem_singleton]
      exact ⟨customs, name⟩

end Module

end Workbench.Wasm

namespace Workbench.Pipeline

open Security (Rule)
open Seal (Scheme)
open Wasm (indexLimit)

/-! ### Drafts -/

/-- Settings are possible with a seal if they are without it. -/
theorem Config.validate_sealing (settings : Config) (safe : Bool) :
    { settings with quantumSafety := safe }.validate =
      settings.validate.map fun settings => { settings with quantumSafety := safe } := by
  unfold validate
  dsimp only
  split
  · rfl
  · split <;> rfl

/-- Whether a seal is asked for counts only for what the draft says of it. -/
theorem draft_sealing (rules : List Rule) (settings : Config) (mode : Mode) (source : String)
    (noticed : Checkpoint → Bool) (safe : Bool) :
    draft rules { settings with quantumSafety := safe } mode source noticed =
      (draft rules settings mode source noticed).map fun d => { d with wantsSeal := safe } := by
  have opened : Run.opened mode { settings with quantumSafety := safe } =
      Run.opened mode settings := rfl
  have checked (tree : Syntax.Contract) :
      Run.checked mode { settings with quantumSafety := safe } tree =
        Run.checked mode settings tree := rfl
  have scanned (tree : Syntax.Contract) :
      Run.scanned rules mode { settings with quantumSafety := safe } tree =
        Run.scanned rules mode settings tree := rfl
  have rewritten (tree : Syntax.Contract) :
      Run.rewritten rules mode { settings with quantumSafety := safe } tree =
        Run.rewritten rules mode settings tree := rfl
  have drafted (tree : Syntax.Contract) :
      drafted rules mode { settings with quantumSafety := safe } tree =
        { drafted rules mode settings tree with wantsSeal := safe } := rfl
  rw [draft_eq, draft_eq]
  simp only [opened, checked, scanned, rewritten, drafted]
  by_cases large : settings.maxSourceSize < source.utf8ByteSize
  · simp only [if_pos large]
    rfl
  · simp only [if_neg large, Run.pass]
    -- A checkpoint either ends both or neither.
    cases Syntax.parse source <;> repeat' split
    all_goals rfl

/-! ### Finished drafts -/

/-- What a seal does to the result of a compilation: it adds its section to the module that the
compilation leaves, if it leaves one, and changes nothing else. -/
structure OnlyAppends (scheme : Scheme) (unsealed result : Result) : Prop where
  mode : result.mode = unsealed.mode
  level : result.level = unsealed.level
  success : result.success = unsealed.success
  interface : result.interface = unsealed.interface
  warnings : result.warnings = unsealed.warnings
  errors : result.errors = unsealed.errors
  gas : result.gas = unsealed.gas
  bytecode : unsealed.success → unsealed.mode ≠ .simulation →
    result.bytecode = unsealed.bytecode ++ (scheme.section unsealed.bytecode).encode
  nothing : unsealed.success = false ∨ unsealed.mode = .simulation →
    unsealed.bytecode = [] ∧ result.bytecode = []

/-- A result without an artifact is the same with a seal. -/
theorem OnlyAppends.of_failed (scheme : Scheme) {result : Result} (failed : result.success = false) :
    OnlyAppends scheme result result := by
  have none : result.artifact? = none := by simpa [Result.success] using failed
  have empty : result.bytecode = [] := by simp [Result.bytecode, none]
  exact ⟨rfl, rfl, rfl, rfl, rfl, rfl, rfl, fun success => by simp [failed] at success,
    fun _ => ⟨empty, empty⟩⟩

/-- The format has no room for the section of a seal, and for no other reason does the compilation
fail. -/
structure NoRoom (scheme : Scheme) (d : Draft) (unsealed result : Result) : Prop where
  length : indexLimit ≤ (scheme.section d.module.encode).content.length
  success : unsealed.success
  bytecode : unsealed.mode ≠ .simulation → unsealed.bytecode = d.module.encode
  failed : result.success = false
  errors : result.errors = unsealed.errors ++ [noEstimateDiagnostic d.contract.span]

namespace Draft

variable (d : Draft) (scheme : Scheme) (schedule : Gas.Schedule)

theorem withSeal_payload :
    d.withSeal (some (scheme.payload d.module.encode)) =
      d.module.addCustom (scheme.section d.module.encode) :=
  rfl

/-- A sealed module has the estimate that it has without its seal, if there is room for this. -/
theorem estimate?_sealed :
    Gas.estimate? schedule (d.module.addCustom (scheme.section d.module.encode)).encode =
      if (scheme.section d.module.encode).content.length < indexLimit then
        Gas.estimate? schedule d.module.encode
      else none := by
  have plain := Gas.estimate?_encode schedule d.module
  have withSeal := Gas.estimate?_encode schedule
    (d.module.addCustom (scheme.section d.module.encode))
  have short : Seal.sectionName.utf8ByteSize ≤ Wasm.maxName := by decide
  have fits := Wasm.Module.fits_addCustom d.module (scheme.section d.module.encode)
  by_cases room : (scheme.section d.module.encode).content.length < indexLimit
  · rw [if_pos room]
    by_cases whole : d.module.Fits
    · rw [plain.gives whole, withSeal.gives (fits.2 ⟨whole, room, short⟩)]
      rfl
    · rw [plain.fails whole, withSeal.fails fun both => whole (fits.1 both).1]
  · rw [if_neg room, withSeal.fails fun both => room (fits.1 both).2.1]

/-- What comes of a sealed module is what comes of it without its seal, unless the estimate then
fails for want of room. -/
theorem assay_sealed :
    d.assay schedule (some (scheme.payload d.module.encode)) =
      (d.assay schedule none).bind fun gas =>
        if (scheme.section d.module.encode).content.length < indexLimit then .ok gas
        else .error (noEstimateDiagnostic d.contract.span) := by
  have estimate := d.estimate?_sealed scheme schedule
  unfold assay
  simp only [withSeal_payload, estimate]
  show (if !(d.module.isValid && d.module.withinLimits) then _ else _) = _
  by_cases unsound : !(d.module.isValid && d.module.withinLimits)
  · simp only [withSeal, unsound]
    rfl
  · simp only [withSeal, unsound]
    by_cases room : (scheme.section d.module.encode).content.length < indexLimit <;>
      cases Gas.estimate? schedule d.module.encode <;> simp [room, Except.bind]

/-- A module with room for its seal succeeds with its section behind it. -/
theorem onlyAppends_succeed (gas : Nat) :
    OnlyAppends scheme (d.run.succeed (artifact d.run.mode d.contract d.module gas))
      (d.run.succeed (artifact d.run.mode d.contract
        (d.module.addCustom (scheme.section d.module.encode)) gas)) := by
  refine ⟨rfl, rfl, rfl, ?_, rfl, rfl, ?_, fun _ kept => ?_, ?_⟩
  · cases mode : d.run.mode <;> rfl
  · simp [Result.gas, Run.succeed, artifact_gas]
  · have kept : d.run.mode ≠ .simulation := kept
    simp only [Result.bytecode, Run.succeed, artifact_of_stored kept]
    exact d.module.encode_addCustom _
  · rintro (failed | simulated)
    · cases failed
    · have simulated : d.run.mode = .simulation := simulated
      simp [Result.bytecode, Run.succeed, artifact, simulated]

/-- A draft that is finished with its seal and without it. -/
theorem finish_sealed (cancelled : Bool) :
    let unsealed := d.finish schedule none cancelled
    let result := d.finish schedule (some (scheme.payload d.module.encode)) cancelled
    OnlyAppends scheme unsealed result ∨ NoRoom scheme d unsealed result := by
  intro unsealed result
  cases cancelled with
  | true =>
      have same : result = unsealed := rfl
      rw [same]
      exact .inl (.of_failed scheme rfl)
  | false =>
  simp only [unsealed, result, finish_eq, d.assay_sealed scheme schedule]
  cases assayed : d.assay schedule none with
  | error message => exact .inl (.of_failed scheme rfl)
  | ok gas =>
      by_cases room : (scheme.section d.module.encode).content.length < indexLimit
      · simp only [Except.bind, room, if_true]
        exact .inl (d.onlyAppends_succeed scheme gas)
      · simp only [Except.bind, room, if_false]
        refine .inr ⟨Nat.le_of_not_lt room, rfl, fun kept => ?_, rfl, ?_⟩
        · have kept : d.run.mode ≠ .simulation := kept
          simp only [Result.bytecode, Run.succeed, artifact_of_stored kept]
          rfl
        · rfl

end Draft

/-! ### Whole compilations -/

/-- Sealing only appends. Compilations of one request with a seal and without it, by a scheme that
cancels nothing, are both refused for impossible settings or have results that are the same but for
the section of the seal, which stands behind all other bytes and holds the payload of just these. The
exception is a seal that is so long that the format has no room for its section. -/
theorem sealing_only_appends (p : Compiler) (quiet : p.scheme.cancels = false) (request : Request)
    (noticed : Checkpoint → Bool) :
    let compile (safe : Bool) :=
      (p.compile { request with quantumSafety := some safe } noticed).1
    (∃ refusal, compile false = .error refusal ∧ compile true = .error refusal) ∨
    ∃ unsealed result, compile false = .ok unsealed ∧ compile true = .ok result ∧
      (OnlyAppends p.scheme unsealed result ∨
        ∃ d, p.start { request with quantumSafety := some false } noticed = .ok (.ok d) ∧
          NoRoom p.scheme d unsealed result) := by
  intro compile
  have starts (safe : Bool) : p.start { request with quantumSafety := some safe } noticed =
      (request.settings p.config).validate.map fun settings =>
        (draft p.rules settings request.mode request.source noticed).map fun d =>
          { d with wantsSeal := safe } := by
    show (Config.validate { request.settings p.config with quantumSafety := safe }).map _ = _
    rw [Config.validate_sealing]
    cases (request.settings p.config).validate with
    | error refusal => rfl
    | ok settings => exact congrArg _ (draft_sealing _ settings _ _ noticed safe)
  simp only [compile, Compiler.compile, starts]
  cases (request.settings p.config).validate with
  | error refusal => exact .inl ⟨refusal, rfl, rfl⟩
  | ok settings =>
  have early := gives_scanned p.rules settings request.mode request.source noticed
  cases drafts : draft p.rules settings request.mode request.source noticed with
  | error result =>
      rw [drafts] at early
      simp only [Except.map, drafts]
      exact .inr ⟨result, result, rfl, rfl, .inl (.of_failed p.scheme early)⟩
  | ok d =>
      simp only [Except.map, drafts, quiet, Bool.and_false, Bool.or_false]
      refine .inr ⟨_, _, rfl, rfl, ?_⟩
      rcases d.finish_sealed p.scheme p.schedule (noticed .sealed) with appends | spoiled
      · exact .inl appends
      · exact .inr ⟨_, rfl, spoiled.length, spoiled.success, spoiled.bytecode, spoiled.failed,
          spoiled.errors⟩

/-- A contract that is sealed with its own code, behind its debugging names. -/
theorem sealing_only_appends_copying :
    let p : Compiler := { Compiler.standard .standard with scheme := ⟨"copy", id, []⟩ }
    let request := Request.plain "contract T { function f() -> i32 { return 1; } }" .debug
    p.scheme.cancels = false ∧
    let compile (safe : Bool) :=
      (p.compile { request with quantumSafety := some safe } fun _ => false).1
    ∃ unsealed result, compile false = .ok unsealed ∧ compile true = .ok result ∧
      unsealed.success ∧ OnlyAppends p.scheme unsealed result := by
  intro p request
  refine ⟨rfl, ?_⟩
  intro compile
  have success (safe : Bool) : (compile safe).toOption.any (·.success) = true := by
    cases safe <;> decide +kernel
  rcases sealing_only_appends p rfl request fun _ => false with
    ⟨refusal, refuses, -⟩ | ⟨unsealed, result, compiles, seals, appends | ⟨d, -, spoiled⟩⟩
  · have refuses : compile false = .error refusal := refuses
    simpa [refuses, Except.toOption] using success false
  · have succeeds : unsealed.success = true := by
      have compiles : compile false = .ok unsealed := compiles
      simpa [compiles, Except.toOption] using success false
    exact ⟨unsealed, result, compiles, seals, succeeds, appends⟩
  · have seals : compile true = .ok result := seals
    have succeeds : result.success = true := by
      simpa [seals, Except.toOption] using success true
    exact absurd spoiled.failed (by simp [succeeds])

end Workbench.Pipeline
