import Workbench.Codegen.Linking
import Workbench.Proofs.Pipeline.Validity

/-!
# Artifacts

What a compilation leaves that succeeds: the module of an accepted contract with its interface. The
module may have been sealed, which only adds a custom section, so it is linked and runs as it would
without the seal.
-/

namespace Workbench.Pipeline

open Codegen (LoweredFrom Layout Links generate imports hostFunction importedBuiltins? link? linked
  linked_links)
open Lang (Host)
open Security (Rule)

/-! ### Sealed modules -/

section

variable {State : Type} (d : Draft) (payload? : Option Wasm.Bytes) (host : Host State)

/-- A module with or without its seal, next to the functions of a host. -/
def Draft.sealed (d : Draft) (payload? : Option Wasm.Bytes) (host : Host State) :
    Wasm.Instance State :=
  ⟨d.withSeal payload?, (imports d.contract).map (hostFunction host)⟩

theorem Draft.imports_withSeal : (d.withSeal payload?).imports = d.module.imports := by
  cases payload? <;> rfl

theorem Draft.exports_withSeal : (d.withSeal payload?).exports = d.module.exports := by
  cases payload? <;> rfl

theorem Draft.type?_withSeal : (d.withSeal payload?).type? = d.module.type? := by
  cases payload? <;> rfl

theorem Draft.functionTypes?_withSeal :
    (d.withSeal payload?).functionTypes? = d.module.functionTypes? := by
  cases payload? <;> rfl

theorem Draft.importedBuiltins?_withSeal :
    importedBuiltins? (d.withSeal payload?) = importedBuiltins? d.module := by
  cases payload? <;> rfl

variable {d} {debugNames : Bool} (module : d.module = generate debugNames d.contract)

include module

theorem Draft.link?_withSeal : link? host (d.withSeal payload?) = some (d.sealed payload? host) := by
  rw [link?, d.importedBuiltins?_withSeal, module, Codegen.importedBuiltins?_generate]
  rfl

theorem Draft.sealed_links :
    Links d.contract host ⟨imports d.contract⟩ (d.sealed payload? host) := by
  have links := linked_links debugNames d.contract host
  have same : (d.sealed payload? host).func? = (linked debugNames d.contract host).func? := by
    funext index
    cases payload? <;> simp only [Draft.sealed, Draft.withSeal, module] <;> rfl
  exact ⟨links.host, links.noHost, fun index f found => same ▸ links.function index f found⟩

end

/-! ### Success -/

variable {noticed : Checkpoint → Bool}

/-- A draft is one for the mode that was asked for, and no finding about its source is an error. -/
theorem gives_scanned (rules : List Rule) (settings : Config) (mode : Mode) (source : String)
    (noticed : Checkpoint → Bool) :
    Step.Gives (fun result => result.success = false)
      (fun d => d.run.mode = mode ∧ ∀ tree, Syntax.parse source = .ok tree →
        ∀ x ∈ Security.findings rules (Check.analyze tree).contract,
          (x.diagnostic mode.failsOnCritical).isError = false)
      (draft rules settings mode source noticed) := by
  unfold draft
  dsimp only
  split
  · exact Step.gives_throw_bind rfl
  refine Step.gives_bind (Run.gives_pass _ rfl fun _ => ?_)
  split
  · rfl
  case h_2 tree parsed =>
  refine Step.gives_bind (Run.gives_pass _ rfl fun _ => ?_)
  refine Step.gives_bind (Run.gives_pass _ rfl fun _ => ?_)
  split
  case isTrue => exact Step.gives_throw_bind rfl
  case isFalse clean =>
  refine Step.gives_bind (Run.gives_pass _ rfl fun _ => ?_)
  refine Step.gives_bind (Run.gives_pass _ rfl fun _ => ?_)
  refine ⟨rfl, fun tree' parsed' x mem => ?_⟩
  obtain rfl : tree = tree' := Except.ok.inj (parsed.symm.trans parsed')
  have clean := List.isEmpty_iff.1 (by simpa using clean)
  obtain ⟨-, none⟩ := List.append_eq_nil_iff.1 clean
  have quiet := List.filter_eq_nil_iff.1 none _ (List.mem_map_of_mem mem)
  simpa using quiet

/-- How a compilation succeeded: from a draft without a finding that is an error. -/
structure Succeeds (p : Compiler) (request : Request) (result : Result) (d : Draft)
    (tree : Syntax.Contract) (gas : Nat) : Prop where
  accepted : d.Accepted request.mode request.source tree
  scanned : ∀ x ∈ Security.findings p.rules (Check.analyze tree).contract,
    (x.diagnostic request.mode.failsOnCritical).isError = false
  artifact : result.artifact? =
    some (artifact request.mode d.contract (d.withSeal (d.payload? p.scheme)) gas)

theorem artifact_of_stored {mode : Mode} (stored : mode ≠ .simulation) (c : Lowered.Contract)
    (m : Wasm.Module) (gas : Nat) :
    Pipeline.artifact mode c m gas = ⟨some m, Codegen.interface c, gas⟩ := by
  cases mode <;> first | rfl | exact absurd rfl stored

theorem Draft.artifact?_finish {d : Draft} {schedule : Gas.Schedule} {payload? : Option Wasm.Bytes}
    {cancelled : Bool} (success : (d.finish schedule payload? cancelled).success) :
    ∃ gas, (d.finish schedule payload? cancelled).artifact? =
      some (artifact d.run.mode d.contract (d.withSeal payload?) gas) := by
  unfold Draft.finish at success ⊢
  dsimp only at success ⊢
  split at success
  · contradiction
  next going =>
    rw [if_neg going]
    split at success
    · contradiction
    next fine =>
      rw [if_neg fine]
      cases priced : Gas.estimate? schedule (d.withSeal payload?).encode with
      | none => simp [priced, Run.fail, Result.success] at success
      | some gas => exact ⟨gas, rfl⟩

theorem Compiler.succeeds {p : Compiler} {request : Request} {result : Result}
    (compiles : (p.compile request noticed).1 = .ok result) (success : result.success) :
    ∃ d tree gas, Succeeds p request result d tree gas := by
  rcases Compiler.compile_eq_ok_iff.1 compiles with early | ⟨d, starts, rfl⟩
  · obtain ⟨settings, -, ends⟩ := Compiler.start_eq_ok_iff.1 early
    have scanned := gives_scanned p.rules settings request.mode request.source noticed
    rw [ends] at scanned
    simp [Step.Gives, success] at scanned
  · obtain ⟨tree, accepted⟩ := Compiler.start_accepted _ starts
    obtain ⟨settings, -, drafts⟩ := Compiler.start_eq_ok_iff.1 starts
    have scanned := gives_scanned p.rules settings request.mode request.source noticed
    rw [drafts] at scanned
    obtain ⟨mode, quiet⟩ := scanned
    obtain ⟨gas, made⟩ := Draft.artifact?_finish success
    exact ⟨d, tree, gas, accepted, quiet tree accepted.parsed, mode ▸ made⟩

end Workbench.Pipeline
