import Workbench.Codegen.Interface
import Workbench.Proofs.Check.Views
import Workbench.Proofs.Codegen.Correctness
import Workbench.Proofs.Codegen.Validity

/-!
# Calls of view functions

Whatever a host answers, it is never asked for anything that changes something while a view function
runs: not by the function, nor by those that it calls, nor by the code that is generated for them.
This holds along every run, also of one that traps or goes on for longer than its bounds allow.
-/

namespace Workbench.Codegen

open Lang (Builtin Host HostCall Ledger Word)
open Check (Accepts Harmless analyze accepts_sample sample)
open Lowered (Contract Function)
open Wasm (Export)

/-- The operations that change something which outlives a call. -/
def changing : List Builtin :=
  [.storageStore, .emit, .call, .delegateCall, .selfDestruct]

theorem changesState_iff (kind : Builtin) : kind.changesState ↔ kind ∈ changing := by
  cases kind <;> decide

/-- Nothing that was requested changes anything. -/
def NothingChanged (requests : List HostCall) : Prop :=
  ∀ call ∈ requests, call.kind ∉ changing

/-! ### Requests -/

section

variable {State : Type} {host : Host State}

/-- Requests that change nothing are recorded as such. -/
theorem recording_preserves {kind : Builtin} (quiet : kind.changesState = false) :
    host.recording.Preserves (fun state => NothingChanged state.2) kind := by
  intro args state before
  refine List.forall_mem_cons.2 ⟨?_, before⟩
  rw [← changesState_iff, quiet]
  exact Bool.false_ne_true

theorem nothingChanged_nil : NothingChanged [] :=
  List.forall_mem_nil _

variable {c : Contract} {index : Nat} {f : Function} (closed : c.Closed (Harmless c))
  (found : c.functions[index]? = some f) (view : f.isView)

include closed found view

theorem call_changes_nothing (fuel : Nat) (args : List Word) (state : State) :
    NothingChanged ((c.call host.recording fuel index args).outcome (state, [])).2.2 :=
  Contract.call_preserves closed (fun _ quiet => recording_preserves quiet) fuel ⟨f, found, view⟩
    args _ nothingChanged_nil

theorem invoke_changes_nothing (debugNames : Bool) (fuel depth : Nat) (args : List Word)
    (state : State) :
    NothingChanged ((linked debugNames c host.recording).invoke fuel depth
      ((Layout.mk (imports c)).functionIndex index) args (state, [])).2.2 :=
  invoke_preserves debugNames closed (fun _ quiet => recording_preserves quiet) ⟨f, found, view⟩
    fuel depth args nothingChanged_nil

end

/-! ### Exports -/

/-- With different keys, a member is the one that is found under its key. -/
theorem find?_of_nodup {α : Type} {key : α → String} {xs : List α} (nodup : (xs.map key).Nodup)
    {a : α} (mem : a ∈ xs) : (xs.find? fun x => key x == key a) = some a := by
  induction xs with
  | nil => contradiction
  | cons x xs ih =>
      obtain ⟨fresh, others⟩ := List.nodup_cons.1 nodup
      rcases List.mem_cons.1 mem with rfl | later
      · exact List.find?_cons_of_pos (beq_self_eq_true _)
      · have other : key x ≠ key a := fun same => fresh (same ▸ List.mem_map_of_mem later)
        rw [List.find?_cons_of_neg (by simpa using other)]
        exact ih others later

/-- A call by name is one of the public function of that name. -/
theorem invokeExport_eq {State : Type} {c : Contract} (names : (c.functions.map (·.name)).Nodup)
    (debugNames : Bool) (host : Host State) {index : Nat} {f : Function}
    (found : c.functions[index]? = some f) (isPublic : f.isPublic) (fuel depth : Nat)
    (args : List Word) (state : State) :
    (linked debugNames c host).invokeExport fuel depth f.name args state =
      (linked debugNames c host).invoke fuel depth ((Layout.mk (imports c)).functionIndex index)
        args state := by
  have exported : (⟨f.name, (Layout.mk (imports c)).functionIndex index⟩ : Export) ∈
      exports ⟨imports c⟩ c := (mem_exports c).2 ⟨index, f, found, isPublic, rfl⟩
  have named := find?_of_nodup (exports_nodup c ⟨imports c⟩ names) exported
  have same : ((linked debugNames c host).module.exports.find? fun e => e.name == f.name) =
      some ⟨f.name, (Layout.mk (imports c)).functionIndex index⟩ := named
  rw [Wasm.Instance.invokeExport, same]

theorem mem_interface {c : Contract} {entry : InterfaceEntry} :
    entry ∈ interface c ↔ ∃ f ∈ c.functions, f.isPublic ∧ entry = .ofFunction f := by
  rw [interface, List.mem_map]
  constructor
  · rintro ⟨f, mem, rfl⟩
    exact ⟨f, List.mem_of_mem_filter mem, (List.mem_filter.1 mem).2, rfl⟩
  · rintro ⟨f, mem, isPublic, rfl⟩
    exact ⟨f, List.mem_filter.2 ⟨mem, isPublic⟩, rfl⟩

/-! ### Accepted contracts -/

theorem LoweredFrom.closed_harmless {source : Syntax.Contract} {c : Contract}
    (lowered : LoweredFrom source c) (accepted : Accepts source) : c.Closed (Harmless c) := by
  have closed := accepted.lowers.closed_harmless
  cases lowered with
  | plain => exact closed
  | optimized options =>
      have same : Harmless ((analyze source).contract.optimize options).value =
          Harmless (analyze source).contract := by
        funext r
        cases r with
        | operation kind => rfl
        | function index =>
            simp [Harmless, Contract.optimize_functions, Lowered.Optimization.function]
        | var index => rfl
      rw [same]
      exact closed.optimize options

/-- While a view function of an accepted contract runs, the host is asked for nothing that changes
something, whatever it answers: not in the evaluation of a call, nor in a run of the generated
module, nor in one that is started under the name of an entry that is marked as a view. -/
theorem views_change_nothing {source : Syntax.Contract} (accepted : Accepts source)
    {c : Contract} (lowered : LoweredFrom source c) {State : Type} (host : Host State) :
    (∀ (index : Nat) (f : Function), c.functions[index]? = some f → f.isView →
      ∀ (fuel : Nat) (args : List Word) (state : State),
        NothingChanged ((c.call host.recording fuel index args).outcome (state, [])).2.2) ∧
    ∀ debugNames, ∃ inst, link? host.recording (generate debugNames c) = some inst ∧
      (∀ (index : Nat) (f : Function), c.functions[index]? = some f → f.isView →
        ∀ (fuel depth : Nat) (args : List Word) (state : State),
          NothingChanged
            (inst.invoke fuel depth ((imports c).length + index) args (state, [])).2.2) ∧
      ∀ entry ∈ interface c, entry.isView →
        ∀ (fuel depth : Nat) (args : List Word) (state : State),
          NothingChanged (inst.invokeExport fuel depth entry.name args (state, [])).2.2 := by
  have closed := lowered.closed_harmless accepted
  refine ⟨fun index f found view => call_changes_nothing closed found view, fun debugNames =>
    ⟨_, link?_generate debugNames c host.recording, fun index f found view =>
      invoke_changes_nothing closed found view debugNames, ?_⟩⟩
  intro entry mem view fuel depth args state
  obtain ⟨f, hf, isPublic, rfl⟩ := mem_interface.1 mem
  obtain ⟨index, found⟩ := List.mem_iff_getElem?.1 hf
  rw [InterfaceEntry.ofFunction, invokeExport_eq (lowered.names_nodup accepted) debugNames
    host.recording found isPublic]
  exact invoke_changes_nothing closed found view debugNames fuel depth args state

/-- A view that reads storage before it traps. -/
theorem views_change_nothing_sample :
    ((analyze sample).contract.call (Ledger.host fun _ => none).recording 3 0 [5, 0]).outcome
        (⟨fun _ => 0, []⟩, []) =
      (.error .trapped, (⟨fun _ => 0, [⟨.storageLoad, [0]⟩]⟩, [⟨.storageLoad, [0]⟩])) ∧
    NothingChanged [⟨.storageLoad, [0]⟩] ∧
    ∃ inst, link? (Ledger.host fun _ => none).recording (generate true (analyze sample).contract) =
        some inst ∧
      ∀ (fuel depth : Nat) (args : List Word) (state : Ledger),
        NothingChanged (inst.invokeExport fuel depth "pick" args (state, [])).2.2 := by
  obtain ⟨evaluation, modules⟩ := views_change_nothing accepts_sample .plain
    (Ledger.host fun _ => none)
  obtain ⟨inst, link, -, entries⟩ := modules true
  refine ⟨rfl, evaluation 0 _ rfl rfl 3 [5, 0] ⟨fun _ => 0, []⟩, inst, link, ?_⟩
  exact entries ⟨"pick", [⟨"x", .i32⟩, ⟨"b", .bool⟩], [⟨"", .i32⟩], true⟩ List.mem_cons_self rfl

end Workbench.Codegen
