import Workbench.Proofs.Codegen.References
import Workbench.Proofs.Pipeline.Artifacts
import Workbench.Proofs.Security.Findings

/-!
# What releases leave out

A release fails on critical findings, and the calls of three operations are critical. The scan finds
every call in the text of a contract, and the imports of a module are among the operations that the
text refers to. So no module of a release imports one of the three, and no run of it asks for one. A
contract that calls one is refused by the scan whenever the compilation gets there.
-/

namespace Workbench.Pipeline

open Source (Diagnostic Span)
open Lang (Builtin Host HostCall)
open Lowered (Contract Expr Function Reference Stmt referencesOf)
open Codegen (LoweredFrom blockUses exprUses generate hostFunction imports link? mem_exports
  mem_blockUses_iff_reference nodeUse? stmtUses uses)
open Check (analyze)
open Security (Event Finding Match Rule blockEvents defaultRules exprEvents findings mem_findings_iff
  stmtEvents)
open Wasm (Module)

/-! ### Calls are events -/

section

variable {kind : Builtin}

theorem exists_event_of_mem_exprUses (callable : kind.callName?.isSome) {e : Expr}
    (mem : kind ∈ exprUses e) :
    ∃ span, (Event.calls kind, span) ∈ exprEvents e := by
  obtain ⟨node, inside, use⟩ := List.mem_filterMap.1 mem
  cases node with
  | slot =>
      cases use
      contradiction
  | builtin called args span =>
      cases use
      exact ⟨span, List.mem_filterMap.2 ⟨_, inside, rfl⟩⟩
  | _ => contradiction

theorem exists_event_of_forall {body : List Stmt}
    (each : ∀ s ∈ body, kind ∈ stmtUses s → ∃ span, (Event.calls kind, span) ∈ stmtEvents s)
    (mem : kind ∈ blockUses body) : ∃ span, (Event.calls kind, span) ∈ blockEvents body := by
  induction body with
  | nil => contradiction
  | cons s rest ih =>
      obtain ⟨first, others⟩ := List.forall_mem_cons.1 each
      rcases List.mem_append.1 mem with here | there
      · obtain ⟨span, event⟩ := first here
        exact ⟨span, List.mem_append_left _ event⟩
      · obtain ⟨span, event⟩ := ih others there
        exact ⟨span, List.mem_append_right _ event⟩

theorem exists_event_of_mem_stmtUses (callable : kind.callName?.isSome) {s : Stmt} :
    kind ∈ stmtUses s → ∃ span, (Event.calls kind, span) ∈ stmtEvents s := by
  have expr {e : Expr} := exists_event_of_mem_exprUses callable (e := e)
  induction s with
  | letIn index value span => exact expr
  | set index value span => exact expr
  | eval value span => exact expr
  | store slot value span =>
      intro mem
      rcases List.mem_cons.1 mem with rfl | mem
      · contradiction
      · obtain ⟨at', event⟩ := expr mem
        exact ⟨at', List.mem_append_left _ event⟩
  | ifThen cond yes no span ihy ihn =>
      intro mem
      rcases List.mem_append.1 mem with mem | mem
      · rcases List.mem_append.1 mem with mem | mem
        · obtain ⟨at', event⟩ := expr mem
          exact ⟨at', List.mem_append_left _ (List.mem_append_left _ event)⟩
        · obtain ⟨at', event⟩ := exists_event_of_forall ihy mem
          exact ⟨at', List.mem_append_left _ (List.mem_append_right _ event)⟩
      · obtain ⟨at', event⟩ := exists_event_of_forall ihn mem
        exact ⟨at', List.mem_append_right _ event⟩
  | whileDo cond body span ih =>
      intro mem
      rcases List.mem_append.1 mem with mem | mem
      · obtain ⟨at', event⟩ := expr mem
        exact ⟨at', List.mem_append_left _ (List.mem_append_right _ event)⟩
      · obtain ⟨at', event⟩ := exists_event_of_forall ih mem
        exact ⟨at', List.mem_append_right _ event⟩
  | returns value span =>
      cases value with
      | none => exact fun mem => nomatch mem
      | some value => exact expr
  | require cond span =>
      intro mem
      obtain ⟨at', event⟩ := expr mem
      exact ⟨at', List.mem_cons_of_mem _ event⟩

/-- The scan meets every call that the text refers to. -/
theorem exists_event_of_reference (callable : kind.callName?.isSome) {body : List Stmt}
    (named : .operation kind ∈ referencesOf body) :
    ∃ span, (Event.calls kind, span) ∈ blockEvents body :=
  exists_event_of_forall (fun _ _ => exists_event_of_mem_stmtUses callable)
    (mem_blockUses_iff_reference.2 named)

end

/-! ### Critical operations -/

/-- The operations that no release asks for. -/
def critical : List Builtin :=
  [.selfDestruct, .delegateCall, .txOrigin]

/-- Some function of a contract has a call of a critical operation somewhere in its body. -/
def CallsCritical (c : Contract) : Prop :=
  ∃ f ∈ c.functions, ∃ kind ∈ critical, .operation kind ∈ referencesOf f.body

theorem callable_of_critical {kind : Builtin} (mem : kind ∈ critical) : kind.callName?.isSome := by
  revert kind
  decide

/-- A call of a critical operation is found, and the finding fails the builds that ask for it. -/
theorem exists_finding {c : Contract} (calls : CallsCritical c) :
    ∃ x ∈ findings defaultRules c, (x.diagnostic true).severity = .error := by
  obtain ⟨f, hf, kind, isCritical, named⟩ := calls
  obtain ⟨span, event⟩ := exists_event_of_reference (callable_of_critical isCritical) named
  have forbidden : ∀ kind ∈ critical, ∃ rule ∈ defaultRules,
      rule.pattern = .calls kind ∧ rule.gravity = .critical := by
    decide
  obtain ⟨rule, hrule, pattern, gravity⟩ := forbidden kind isCritical
  have here : Match f rule.pattern span := pattern ▸ .calls event
  refine ⟨rule.finding f.name span, mem_findings_iff.2 ⟨f, hf, rule, hrule, span, here, rfl⟩, ?_⟩
  simp [Rule.finding, Finding.diagnostic, gravity]

/-- The code that is made of a contract refers to nothing that the contract does not refer to. -/
theorem callsCritical_of_lowered {source : Syntax.Contract} {c : Contract}
    (lowered : LoweredFrom source c) (calls : CallsCritical c) :
    CallsCritical (analyze source).contract := by
  cases lowered with
  | plain => exact calls
  | optimized options =>
      obtain ⟨g, hg, kind, isCritical, named⟩ := calls
      rw [Contract.optimize_functions] at hg
      obtain ⟨f, hf, rfl⟩ := List.mem_map.1 hg
      have fewer := Lowered.Optimization.function_references_sublist options f
      exact ⟨f, hf, kind, isCritical, fewer.subset named⟩

/-! ### Modules without critical operations -/

/-- No critical operation was requested. -/
def Uncritical (requests : List HostCall) : Prop :=
  ∀ call ∈ requests, call.kind ∉ critical

/-- A module imports no critical operation, and next to whatever host no run of it requests one. -/
structure Excludes (m : Module) : Prop where
  imports : ∀ i ∈ m.imports, ∀ kind ∈ critical, i.name ≠ kind.importName
  runs : ∀ {State : Type} (host : Host State), ∃ inst, link? host.recording m = some inst ∧
    ∀ (fuel depth : Nat) (name : String) (args : List Lang.Word) (state : State),
      Uncritical (inst.invokeExport fuel depth name args (state, [])).2.2

theorem not_critical_of_imported {c : Contract} (free : ¬ CallsCritical c) {kind : Builtin}
    (imported : kind ∈ imports c) : kind ∉ critical := by
  intro isCritical
  have used : kind ∈ uses c := List.contains_iff_mem.1 (List.mem_filter.1 imported).2
  obtain ⟨f, hf, needed⟩ := List.mem_flatMap.1 used
  exact free ⟨f, hf, kind, isCritical, mem_blockUses_iff_reference.1 needed⟩

theorem excludes_withSeal {d : Draft} {mode : Mode} {source : String} {tree : Syntax.Contract}
    (h : d.Accepted mode source tree) (free : ¬ CallsCritical d.contract)
    (payload? : Option Wasm.Bytes) : Excludes (d.withSeal payload?) := by
  constructor
  · intro i mem kind isCritical same
    rw [d.imports_withSeal, h.module] at mem
    obtain ⟨imported, inside, rfl⟩ := List.mem_map.1 mem
    have alike : imported = kind := by
      have := congrArg Builtin.ofImportName? same
      simpa only [Codegen.ofImportName?_importName, Option.some.injEq] using this
    exact not_critical_of_imported free inside (alike ▸ isCritical)
  · intro State host
    refine ⟨_, Draft.link?_withSeal payload? host.recording h.module, ?_⟩
    intro fuel depth name args state
    let Quiet (state : State × List HostCall) : Prop := Uncritical state.2
    have serves {kind : Builtin} (imported : kind ∈ imports d.contract) :
        host.recording.Preserves Quiet kind :=
      fun _ _ before => List.forall_mem_cons.2 ⟨not_critical_of_imported free imported, before⟩
    have preserves : (d.sealed payload? host.recording).Preserves Quiet fun _ => True := by
      refine ⟨fun index function _ found args state quiet => ?_, fun _ _ _ _ _ _ _ _ => trivial⟩
      obtain ⟨kind, imported, rfl⟩ := List.mem_map.1 (List.mem_of_getElem? found)
      exact Codegen.hostFunction_preserves (serves imported) args quiet
    have nothing : Quiet (state, []) := List.forall_mem_nil _
    unfold Wasm.Instance.invokeExport
    split
    case h_1 e found =>
      have exported : e ∈ (d.withSeal payload?).exports := List.mem_of_find?_eq_some found
      rw [d.exports_withSeal, h.module] at exported
      obtain ⟨index, f, -, -, rfl⟩ := (mem_exports d.contract).1 exported
      exact Wasm.Instance.invoke_preserves preserves trivial
        ((Draft.sealed_links payload? host.recording h.module).noHost index) fuel depth args nothing
    case h_2 => exact nothing

/-! ### Compilations -/

/-- A compilation that gets to the scan fails if a finding is an error, with its message. -/
theorem fails_of_finding {rules : List Rule} {settings : Config} {mode : Mode} {source : String}
    {noticed : Checkpoint → Bool} {tree : Syntax.Contract}
    (size : source.utf8ByteSize ≤ settings.maxSourceSize)
    (unnoticed : ∀ c ∈ [Checkpoint.grammar, .semantic, .security], noticed c = false)
    (parsed : Syntax.parse source = .ok tree) {x : Finding}
    (found : x ∈ findings rules (analyze tree).contract)
    (error : (x.diagnostic mode.failsOnCritical).severity = .error) :
    ∃ result, draft rules settings mode source noticed = .error result ∧
      x.diagnostic mode.failsOnCritical ∈ result.errors := by
  have pass (run : Run) (c : Checkpoint) (mem : c ∈ [Checkpoint.grammar, .semantic, .security]) :
      run.pass noticed c = .ok () := by
    rw [Run.pass, unnoticed c mem]
    rfl
  let analysis := analyze tree
  let run := (((Run.mk mode (mode.level settings) [] []).reportAll analysis.diagnostics).reportAll
    ((findings rules analysis.contract).map (·.diagnostic mode.failsOnCritical)))
  have reported : x.diagnostic mode.failsOnCritical ∈ run.errors := by
    refine List.mem_append_right _ (List.mem_filter.2 ⟨List.mem_map_of_mem found, ?_⟩)
    rw [Diagnostic.isError, error]
    rfl
  have failed : (!run.errors.isEmpty) = true := by
    rw [Bool.not_eq_true', List.isEmpty_eq_false_iff]
    exact List.ne_nil_of_mem reported
  refine ⟨run.fail, ?_, reported⟩
  unfold draft
  dsimp only
  rw [if_neg (Nat.not_lt.2 size), pass _ _ (by decide), parsed]
  dsimp only [bind, Except.bind]
  rw [pass _ _ (by decide), pass _ _ (by decide)]
  dsimp only
  rw [if_pos failed]
  rfl

variable {p : Compiler} {request : Request} {settings : Config} {noticed : Checkpoint → Bool}

/-- With possible settings a compilation has a result. -/
theorem Compiler.exists_result (valid : (request.settings p.config).validate = .ok settings) :
    ∃ result, (p.compile request noticed).1 = .ok result := by
  cases drafts : draft p.rules settings request.mode request.source noticed with
  | error early =>
      have starts := Compiler.start_eq_ok_iff.2 ⟨settings, valid, drafts⟩
      exact ⟨early, Compiler.compile_eq_ok_iff.2 (.inl starts)⟩
  | ok d =>
      have starts := Compiler.start_eq_ok_iff.2 ⟨settings, valid, drafts⟩
      exact ⟨_, Compiler.compile_eq_ok_iff.2 (.inr ⟨d, starts, rfl⟩)⟩

theorem Compiler.compile_of_refused {refusal : Refusal}
    (refused : (request.settings p.config).validate = .error refusal) :
    (p.compile request noticed).1 = .error refusal := by
  unfold Compiler.compile Compiler.start
  rw [refused]
  rfl

theorem Compiler.compile_of_early (valid : (request.settings p.config).validate = .ok settings)
    {early : Result}
    (ends : draft p.rules settings request.mode request.source noticed = .error early) :
    (p.compile request noticed).1 = .ok early :=
  Compiler.compile_eq_ok_iff.2 (.inl (Compiler.start_eq_ok_iff.2 ⟨settings, valid, ends⟩))

theorem not_callsCritical_of_success (rules : p.rules = defaultRules)
    (release : request.mode = .release) {result : Result} {d : Draft} {tree : Syntax.Contract}
    {gas : Nat} (made : Succeeds p request result d tree gas) :
    ¬ CallsCritical (analyze tree).contract := by
  intro calls
  obtain ⟨x, found, error⟩ := exists_finding calls
  have quiet := made.scanned x (rules ▸ found)
  rw [release] at quiet
  have isError : (x.diagnostic true).isError = true := by
    rw [Diagnostic.isError, error]
    rfl
  exact Bool.false_ne_true (quiet.symm.trans isError)

/-- With the usual rules a release that succeeds leaves a module without critical operations. If the
lowered form of its source calls one, it fails, and with an error of the scan unless the source is
larger than allowed or a cancellation is noticed before the scan. With impossible settings there is
no result. -/
theorem release_excludes (rules : p.rules = defaultRules) (release : request.mode = .release)
    (noticed : Checkpoint → Bool) :
    (∀ refusal, (request.settings p.config).validate = .error refusal →
      (p.compile request noticed).1 = .error refusal) ∧
    ∀ settings, (request.settings p.config).validate = .ok settings →
      ∃ result, (p.compile request noticed).1 = .ok result ∧
        (result.success → ∃ m, result.artifact?.bind (·.module?) = some m ∧ Excludes m) ∧
        ∀ tree, Syntax.parse request.source = .ok tree → CallsCritical (analyze tree).contract →
          result.success = false ∧
          (request.source.utf8ByteSize ≤ settings.maxSourceSize →
            (∀ c ∈ [Checkpoint.grammar, .semantic, .security], noticed c = false) →
            ∃ e ∈ result.errors, e.stage = .security ∧ e.severity = .error) := by
  refine ⟨fun refusal => Compiler.compile_of_refused, fun settings valid => ?_⟩
  obtain ⟨result, compiles⟩ := Compiler.exists_result valid
  refine ⟨result, compiles, fun success => ?_, fun tree parsed calls => ⟨?_, fun size unnoticed => ?_⟩⟩
  · obtain ⟨d, tree, gas, made⟩ := Compiler.succeeds compiles success
    have stored : request.mode ≠ .simulation := by simp [release]
    have free : ¬ CallsCritical d.contract := fun calls =>
      not_callsCritical_of_success rules release made
        (callsCritical_of_lowered made.accepted.lowered calls)
    refine ⟨_, ?_, excludes_withSeal made.accepted free (d.payload? p.scheme)⟩
    rw [made.artifact, artifact_of_stored stored]
    rfl
  · rw [← Bool.not_eq_true]
    intro success
    obtain ⟨d, tree', gas, made⟩ := Compiler.succeeds compiles success
    obtain rfl : tree = tree' := Except.ok.inj (parsed.symm.trans made.accepted.parsed)
    exact not_callsCritical_of_success rules release made calls
  · obtain ⟨x, found, error⟩ := exists_finding calls
    have failing : request.mode.failsOnCritical = true := by
      rw [release]
      rfl
    rw [← rules] at found
    rw [← failing] at error
    obtain ⟨early, ends, reported⟩ := fails_of_finding size unnoticed parsed found error
    obtain rfl : early = result :=
      Except.ok.inj ((Compiler.compile_of_early valid ends).symm.trans compiles)
    exact ⟨_, reported, rfl, error⟩

/-- A contract that calls a critical operation in a function that nothing calls. -/
def selfDestructing : String :=
  "contract T { function f() { selfdestruct(); } }"

theorem parse_selfDestructing :
    ∃ tree, Syntax.parse selfDestructing = .ok tree ∧ CallsCritical (analyze tree).contract := by
  have reads : (Syntax.parse selfDestructing).toOption.any (fun tree =>
      (analyze tree).contract.functions.any fun f =>
        (referencesOf f.body).contains (.operation .selfDestruct)) = true := by
    decide +kernel
  cases parsed : Syntax.parse selfDestructing with
  | error messages => simp [parsed, Except.toOption] at reads
  | ok tree =>
      simp only [parsed, Except.toOption, Option.any_some, List.any_eq_true,
        List.contains_iff_mem] at reads
      obtain ⟨f, hf, named⟩ := reads
      exact ⟨tree, rfl, f, hf, .selfDestruct, List.mem_cons_self, named⟩

theorem release_excludes_selfDestructing :
    ∃ result, ((Compiler.standard .standard).compile (.plain selfDestructing .release)
        fun _ => false).1 = .ok result ∧ result.success = false ∧
      ∃ e ∈ result.errors, e.stage = .security ∧ e.severity = .error := by
  obtain ⟨tree, parsed, calls⟩ := parse_selfDestructing
  have rules : (Compiler.standard .standard).rules = defaultRules := rfl
  have release : (Request.plain selfDestructing .release).mode = .release := rfl
  have valid : ((Request.plain selfDestructing .release).settings
    (Compiler.standard .standard).config).validate = .ok .standard := rfl
  obtain ⟨-, scans⟩ := release_excludes rules release fun _ => false
  obtain ⟨result, compiles, -, fails⟩ := scans _ valid
  obtain ⟨failed, scanned⟩ := fails tree parsed calls
  exact ⟨result, compiles, failed, scanned (by decide) fun _ _ => rfl⟩

/-- A source that is larger than allowed is refused unread, so nothing is said about its calls. -/
theorem oversize_release_unscanned :
    let p := Compiler.standard { Config.standard with maxSourceSize := 10 }
    p.rules = defaultRules ∧
    (∃ tree, Syntax.parse selfDestructing = .ok tree ∧ CallsCritical (analyze tree).contract) ∧
    ∃ result, (p.compile (.plain selfDestructing .release) fun _ => false).1 = .ok result ∧
      ∀ e ∈ result.errors, e.stage = .input := by
  intro p
  refine ⟨rfl, parse_selfDestructing, ?_⟩
  have refused : (p.compile (.plain selfDestructing .release) fun _ => false).1.toOption.any
      (fun r => r.errors.all fun e => e.stage = .input) = true := by
    decide +kernel
  cases compiles : (p.compile (.plain selfDestructing .release) fun _ => false).1 with
  | error refusal => simp [compiles, Except.toOption] at refused
  | ok result =>
      simp only [compiles, Except.toOption, Option.any_some, List.all_eq_true,
        decide_eq_true_eq] at refused
      exact ⟨result, rfl, refused⟩

end Workbench.Pipeline
