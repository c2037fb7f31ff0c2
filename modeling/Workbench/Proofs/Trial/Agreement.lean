import Workbench.Proofs.Codegen.Views
import Workbench.Proofs.Pipeline.Artifacts
import Workbench.Trial.Call

/-!
# Modules, interfaces and the world in memory agree

A compiled contract is called through what three parts say about it. Its interface says which
functions there are and what they take and give, its module exports them and asks for operations of
the host, and the world in memory offers such operations. All of them agree, so nothing that the
interface allows fails for the way in which it is asked for.
-/

namespace Workbench.Trial

open Lang (Builtin Word Host)
open Lowered (Contract Function any_admits any_argsFit any_hostKeeps getElem?_signatures)
open Codegen (InterfaceEntry Layout Links CoversBlock Corresponds builtinType declares_moduleTypes
  exists_evaluates exports exports_nodup find?_of_nodup functionType functionTypes?_generate generate
  hostFunction imports interface link? mem_exports mem_imports mem_interface moduleTypes
  params_functionType type?_builtinType words)
open Pipeline (Compiler Checkpoint Draft Request Result Succeeds)
open Wasm (Export FuncType Instance Module)
open Wasm.Instance (Ending)

/-! ### What is offered -/

/-- The functions that the world in memory offers to modules, by name, with how many words they take
and give. -/
def World.offers : List (String × FuncType) :=
  [("caller", ⟨0, 1⟩), ("tx_origin", ⟨0, 1⟩), ("timestamp", ⟨0, 1⟩), ("emit", ⟨1, 0⟩),
    ("call", ⟨2, 1⟩), ("delegatecall", ⟨1, 1⟩), ("ecrecover", ⟨1, 1⟩), ("selfdestruct", ⟨0, 0⟩),
    ("sload", ⟨1, 1⟩), ("sstore", ⟨2, 0⟩)]

/-- Linking goes by the same names and types. -/
theorem World.offers_eq :
    World.offers = Builtin.all.map fun kind => (kind.importName, (hostFunction World.host kind).type) :=
  rfl

theorem World.mem_offers (kind : Builtin) : (kind.importName, builtinType kind) ∈ World.offers := by
  rw [World.offers_eq]
  exact List.mem_map_of_mem (Builtin.mem_all kind)

/-! ### Agreement -/

/-- The type of a function of a module, by its number among all functions. -/
def typeOf? (m : Module) (function : Nat) : Option FuncType :=
  m.functionTypes?.bind (·[function]?)

/-- How many words a function takes and gives by its entry in an interface. -/
def entryType (entry : InterfaceEntry) : FuncType :=
  ⟨entry.inputs.length, entry.outputs.length⟩

/-- A module exports the functions of an interface and asks for operations that the world in memory
offers. -/
structure Agree (m : Module) (interface : List InterfaceEntry) : Prop where
  names : m.exports.map (·.name) = interface.map (·.name)
  nodup : (interface.map (·.name)).Nodup
  types : List.Forall₂ (fun (e : Export) entry => typeOf? m e.function = some (entryType entry))
    m.exports interface
  imports : ∀ i ∈ m.imports, ∃ kind : Builtin,
    i.moduleName = Builtin.importModule ∧ i.name = kind.importName ∧
      ∃ type, m.type? i.type = some type ∧ (kind.importName, type) ∈ World.offers

/-- The exports and the entries of an interface come from the same functions in the same order. -/
theorem forall₂_exports {R : Export → InterfaceEntry → Prop} {c : Contract} (layout : Layout)
    (each : ∀ (index : Nat) (f : Function), c.functions[index]? = some f → f.isPublic →
      R ⟨f.name, layout.functionIndex index⟩ (.ofFunction f)) :
    List.Forall₂ R (exports layout c) (interface c) := by
  have walk (fs : List Function) (first : Nat)
      (each : ∀ entry ∈ fs.zipIdx first, entry.1.isPublic →
        R ⟨entry.1.name, layout.functionIndex entry.2⟩ (.ofFunction entry.1)) :
      List.Forall₂ R
        ((fs.zipIdx first).filterMap fun entry =>
          if entry.1.isPublic then some (Export.mk entry.1.name (layout.functionIndex entry.2))
          else none)
        ((fs.filter (·.isPublic)).map InterfaceEntry.ofFunction) := by
    induction fs generalizing first with
    | nil => exact .nil
    | cons f fs ih =>
        rw [List.zipIdx_cons] at each ⊢
        obtain ⟨here, there⟩ := List.forall_mem_cons.1 each
        have rest := ih (first + 1) there
        by_cases isPublic : f.isPublic
        · simpa [isPublic] using List.Forall₂.cons (here isPublic) rest
        · simpa [isPublic] using rest
  refine walk c.functions 0 fun entry mem isPublic => each entry.2 entry.1 ?_ isPublic
  exact List.mem_zipIdx_iff_getElem?.1 mem

theorem functionType_eq {c : Contract} {f : Function} (typed : c.TypedFunction f) :
    functionType f = entryType (.ofFunction f) := by
  have params : (functionType f).params = (InterfaceEntry.ofFunction f).inputs.length := by
    rw [params_functionType typed, ← Function.length_params typed, InterfaceEntry.ofFunction,
      List.length_map]
  have results : (functionType f).results = (InterfaceEntry.ofFunction f).outputs.length := by
    unfold functionType words InterfaceEntry.ofFunction
    split
    · rfl
    · rfl
  rw [entryType, ← params, ← results]

/-- The module of a draft agrees with the interface of its contract, sealed or not. -/
theorem agree_withSeal {d : Draft} {mode : Pipeline.Mode} {source : String}
    {tree : Syntax.Contract} (h : d.Accepted mode source tree) (payload? : Option Wasm.Bytes) :
    Agree (d.withSeal payload?) (interface d.contract) := by
  have typed := h.lowered.typed h.accepted
  have exported : (d.withSeal payload?).exports = exports ⟨imports d.contract⟩ d.contract := by
    rw [d.exports_withSeal, h.module]
    rfl
  have functions : (d.withSeal payload?).functionTypes? = some (moduleTypes d.contract) := by
    rw [d.functionTypes?_withSeal, h.module, functionTypes?_generate]
  have same : List.Forall₂ (fun (e : Export) entry => e.name = entry.name ∧
      typeOf? (d.withSeal payload?) e.function = some (entryType entry))
      (d.withSeal payload?).exports (interface d.contract) := by
    rw [exported]
    refine forall₂_exports _ fun index f found _ => ⟨rfl, ?_⟩
    rw [typeOf?, functions, ← functionType_eq (typed f (List.mem_of_getElem? found))]
    exact (declares_moduleTypes d.contract).function index f found
  have names : (d.withSeal payload?).exports.map (·.name) =
      (interface d.contract).map (·.name) := by
    rw [← List.forall₂_eq_eq_eq, List.forall₂_map_left_iff, List.forall₂_map_right_iff]
    exact same.imp fun _ _ h => h.1
  constructor
  · exact names
  · rw [← names, exported]
    exact exports_nodup _ _ (h.lowered.names_nodup h.accepted)
  · exact same.imp fun _ _ h => h.2
  · intro i mem
    rw [d.imports_withSeal, h.module] at mem
    obtain ⟨kind, needed, rfl⟩ := List.mem_map.1 mem
    refine ⟨kind, rfl, rfl, builtinType kind, ?_, World.mem_offers kind⟩
    rw [d.type?_withSeal, h.module]
    exact type?_builtinType mode.keepsNames d.contract needed

/-! ### Calls -/

theorem mem_of_pickEntry {interface : List InterfaceEntry} {name? : Option String}
    {entry : InterfaceEntry} (picked : pickEntry interface name? = .ok entry) :
    entry ∈ interface := by
  unfold pickEntry at picked
  split at picked
  · split at picked
    case h_1 found =>
      cases picked
      exact List.mem_of_find?_eq_some found
    case h_2 => contradiction
  · cases picked
    exact List.mem_singleton_self _
  · contradiction
  · contradiction

theorem length_of_mapM {α β ε : Type} {f : α → Except ε β} {xs : List α} {ys : List β}
    (h : xs.mapM f = .ok ys) : ys.length = xs.length := by
  induction xs generalizing ys with
  | nil =>
      cases h
      rfl
  | cons x xs ih =>
      rw [List.mapM_cons] at h
      cases first : f x with
      | error e => simp [first, bind, Except.bind] at h
      | ok y =>
          cases others : xs.mapM f with
          | error e => simp [first, others, bind, Except.bind] at h
          | ok rest =>
              simp only [first, others, bind, Except.bind, pure, Except.pure,
                Except.ok.injEq] at h
              rw [← h, List.length_cons, ih others, List.length_cons]

theorem length_of_readArguments {entry : InterfaceEntry} {texts : List String} {args : List Word}
    (read : readArguments entry texts = .ok args) : args.length = entry.inputs.length := by
  unfold readArguments at read
  split at read
  case isTrue => contradiction
  case isFalse same =>
    rw [length_of_mapM read, List.length_zip, not_not.1 same, Nat.min_self]

section

variable {State : Type} {c : Contract} {host : Host State} {layout : Layout} {inst : Instance State}
  {index : Nat} {f : Function} {args : List Word} {state final : State}

/-- A call with as many arguments as parameters is not stuck, whatever its bounds are, and gives as
many words as its result takes. -/
theorem ending_of_invoke (typed : c.Typed) (links : Links c host layout inst)
    (covers : ∀ f ∈ c.functions, CoversBlock layout f.body)
    (found : c.functions[index]? = some f) (count : args.length = f.paramCount)
    {fuel depth : Nat} {ending : Ending}
    (ended : inst.invoke fuel depth (layout.functionIndex index) args state = (ending, final)) :
    ending ≠ .stuck ∧ ∀ given, ending = .gave given → given.length = words f.result := by
  have comes (proper : ending.Proper) : ∃ result, Corresponds result ending ∧
      Lowered.EndFits (fun _ _ => True) f.result result := by
    obtain ⟨result, corresponds, evaluates⟩ :=
      exists_evaluates typed links covers found count ⟨proper, fuel, depth, ended⟩
    exact ⟨result, corresponds, evaluates.fits any_admits typed (any_hostKeeps _ host)
      (getElem?_signatures found) (any_argsFit (typed f (List.mem_of_getElem? found)) count)
      trivial⟩
  constructor
  · rintro rfl
    obtain ⟨result, corresponds, -⟩ := comes trivial
    cases corresponds
  · rintro given rfl
    obtain ⟨result, corresponds, fits⟩ := comes trivial
    cases corresponds with
    | value value? =>
        cases value? with
        | none => simp [words, show f.result = .unit from fits, Lang.Ty.hasValue]
        | some w => simp [words, show f.result.hasValue = true from fits.1]

end

/-- A call of an entry of an interface finds its function under the type that the entry says, and
comes to no end but those that a function of this type has. -/
structure Callable (m : Module) (entry : InterfaceEntry) (args : List Word) : Prop where
  exported : ∃ e, (m.exports.find? fun e => e.name == entry.name) = some e ∧
    typeOf? m e.function = some ⟨args.length, entry.outputs.length⟩
  runs : ∃ inst, link? World.host m = some inst ∧
    ∀ (fuel depth : Nat) (w : World),
      (inst.invokeExport fuel depth entry.name args w).1 ≠ .stuck ∧
      ∀ given, (inst.invokeExport fuel depth entry.name args w).1 = .gave given →
        given.length = entry.outputs.length

theorem callable_withSeal {d : Draft} {mode : Pipeline.Mode} {source : String}
    {tree : Syntax.Contract} (h : d.Accepted mode source tree) (payload? : Option Wasm.Bytes)
    {entry : InterfaceEntry} (mem : entry ∈ interface d.contract) {args : List Word}
    (count : args.length = entry.inputs.length) : Callable (d.withSeal payload?) entry args := by
  have typed := h.lowered.typed h.accepted
  obtain ⟨f, hf, isPublic, rfl⟩ := mem_interface.1 mem
  obtain ⟨index, found⟩ := List.mem_iff_getElem?.1 hf
  have params : args.length = f.paramCount := by
    rw [count, InterfaceEntry.ofFunction, List.length_map, Function.length_params (typed f hf)]
  have results : (InterfaceEntry.ofFunction f).outputs.length = words f.result :=
    (congrArg FuncType.results (functionType_eq (typed f hf))).symm
  have named : ((d.withSeal payload?).exports.find? fun e => e.name == f.name) =
      some ⟨f.name, (Layout.mk (imports d.contract)).functionIndex index⟩ := by
    have exported : (⟨f.name, (Layout.mk (imports d.contract)).functionIndex index⟩ : Export) ∈
        exports ⟨imports d.contract⟩ d.contract := (mem_exports _).2 ⟨index, f, found, isPublic, rfl⟩
    have own := find?_of_nodup (exports_nodup _ _ (h.lowered.names_nodup h.accepted)) exported
    rw [d.exports_withSeal, h.module]
    exact own
  constructor
  · refine ⟨_, named, ?_⟩
    have type := (declares_moduleTypes d.contract).function index f found
    rw [typeOf?, d.functionTypes?_withSeal, h.module, functionTypes?_generate, count]
    exact type.trans (congrArg some (functionType_eq (typed f hf)))
  · refine ⟨_, Draft.link?_withSeal payload? World.host h.module, fun fuel depth w => ?_⟩
    rw [results, Instance.invokeExport, show (InterfaceEntry.ofFunction f).name = f.name from rfl]
    simp only [Draft.sealed, named]
    exact ending_of_invoke typed (Draft.sealed_links payload? World.host h.module)
      (fun _ hf _ needed => mem_imports hf needed) found params rfl

/-- Where a call can be made, it gives a value exactly if the entry has an output, unless it traps or
does not end. -/
theorem Callable.outcome {m : Module} {entry : InterfaceEntry} {args : List Word}
    (callable : Callable m entry args) (w : World) :
    (call m entry args w).1 ≠ .error .unlinkable ∧
      ∀ value?, (call m entry args w).1 = .ok value? → (value?.isSome ↔ entry.outputs ≠ []) := by
  obtain ⟨-, inst, linked, runs⟩ := callable
  obtain ⟨-, gave⟩ := runs maxSteps maxDepth w
  unfold call
  rw [linked]
  dsimp only
  split
  case h_1 given w' ended =>
    have length := gave given (by rw [ended])
    refine ⟨by simp, fun value? same => ?_⟩
    cases same
    rw [← List.length_pos_iff, ← length, List.length_pos_iff, List.isSome_head?]
  all_goals exact ⟨by simp, by simp⟩

/-! ### Compilations -/

/-- A compilation that succeeds and keeps its module gives one that agrees with the interface. Every
entry that can be picked can be called with all arguments that are read for it. -/
theorem compile_agrees {p : Compiler} {request : Request} {noticed : Checkpoint → Bool}
    {result : Result} (compiles : (p.compile request noticed).1 = .ok result)
    (success : result.success) (stored : request.mode ≠ .simulation) :
    ∃ m, result.artifact?.bind (·.module?) = some m ∧ Agree m result.interface ∧
      ∀ name? entry texts args, pickEntry result.interface name? = .ok entry →
        readArguments entry texts = .ok args →
        Callable m entry args ∧ ∀ w, (call m entry args w).1 ≠ .error .unlinkable ∧
          ∀ value?, (call m entry args w).1 = .ok value? → (value?.isSome ↔ entry.outputs ≠ []) := by
  obtain ⟨d, tree, gas, made⟩ := Compiler.succeeds compiles success
  have artifact : result.artifact? =
      some ⟨some (d.withSeal (d.payload? p.scheme)), interface d.contract, gas⟩ := by
    rw [made.artifact, Pipeline.artifact_of_stored stored]
  have entries : result.interface = interface d.contract := by
    rw [Result.interface, artifact]
    rfl
  refine ⟨d.withSeal (d.payload? p.scheme), by rw [artifact]; rfl, ?_, ?_⟩
  · rw [entries]
    exact agree_withSeal made.accepted _
  · intro name? entry texts args picked read
    have mem := mem_of_pickEntry picked
    rw [entries] at mem
    have callable := callable_withSeal made.accepted (d.payload? p.scheme) mem
      (length_of_readArguments read)
    exact ⟨callable, callable.outcome⟩

/-- The only function of a contract is picked without a name and called with the argument read for
it, in a module that imports the read of storage. -/
theorem compile_agrees_sum :
    let source := "contract C { storage n: i32; function sum(k: i32) public -> i32 { return n + k; } }"
    let entry : InterfaceEntry := ⟨"sum", [⟨"k", .i32⟩], [⟨"", .i32⟩], false⟩
    ∃ result m, ((Compiler.standard .standard).compile (.plain source .debug) fun _ => false).1 =
        .ok result ∧ result.success ∧ pickEntry result.interface none = .ok entry ∧
      readArguments entry ["-5"] = .ok [-5] ∧
      result.artifact?.bind (·.module?) = some m ∧ Agree m result.interface ∧
        Callable m entry [-5] := by
  intro source entry
  have comes : (((Compiler.standard .standard).compile (.plain source .debug)
      fun _ => false).1.toOption.any fun r => r.success && r.interface == [entry]) = true := by
    decide +kernel
  cases compiles : ((Compiler.standard .standard).compile (.plain source .debug)
      fun _ => false).1 with
  | error refusal => simp [compiles, Except.toOption] at comes
  | ok result =>
      simp only [compiles, Except.toOption, Option.any_some, Bool.and_eq_true, beq_iff_eq] at comes
      obtain ⟨success, entries⟩ := comes
      have picked : pickEntry result.interface none = .ok entry := by
        rw [entries]
        rfl
      have read : readArguments entry ["-5"] = .ok [-5] := by decide +kernel
      obtain ⟨m, kept, agree, calls⟩ := compile_agrees compiles success (by decide)
      exact ⟨result, m, rfl, success, picked, read, kept, agree,
        (calls none entry ["-5"] [-5] picked read).1⟩

end Workbench.Trial
