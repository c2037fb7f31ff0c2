import Workbench.Proofs.Check.Acceptance
import Workbench.Proofs.Codegen.StmtSimulation
import Workbench.Proofs.Lang.Ledger
import Workbench.Proofs.Lowered.Fuel
import Workbench.Proofs.Lowered.OptimizationTyping

/-!
# Generated modules mean what their contracts mean

A call of a function in the module of an accepted contract comes to an end exactly when evaluation
does, with the value that evaluation gives or in a trap where evaluation traps. The host is any
host, next to which all requests are recorded, so the same requests are made in the same order.
How deep calls may be nested is the machine's affair: a run that exhausts the stack has not come to
its end.
-/

namespace Workbench.Codegen

open Lang (Word Host Halt Ledger)
open Check (Accepts analyze sample accepts_sample)
open Lowered (Function Contract any_admits any_hostKeeps any_argsFit getElem?_signatures)
open Wasm (Instance Flow Run)
open Wasm.Instance (Ending invoke_succ)
open Wasm.Run (halted)

/-- The end of an evaluation and that of a run correspond. -/
inductive Corresponds : Except Halt (Option Word) → Ending → Prop where
  | value (value? : Option Word) : Corresponds (.ok value?) (.gave value?.toList)
  | trap (trap : Wasm.Trap) : Corresponds (.error .trapped) (.trapped trap)

section

variable {State : Type} {c : Contract} {host : Host State} {layout : Layout} {inst : Instance State}
  {index : Nat} {f : Function} {args : List Word} {state : State}

theorem ofFlow_of_finishing {value? : Option Word} {state' : State} {y : Run State}
    (h : finishing (words f.result) value? state' y) :
    ∃ flow, y = halted flow ∧
      Ending.ofFlow (functionType f).results flow = (.gave value?.toList, state') := by
  obtain ⟨act, value, rfl | rfl⟩ := h
  all_goals
    refine ⟨_, rfl, ?_⟩
    have same : act.stack.take (functionType f).results = value?.toList := value
    rw [Ending.ofFlow, same]
    cases value? <;> rfl

/-- Whatever an evaluation comes to, a run comes to what corresponds to it. -/
theorem ends_of_realizes {table : List Wasm.FuncType} {n : Nat}
    (func : inst.func? (layout.functionIndex index) =
      some (functionEntry layout table f, functionType f))
    {result : Except Halt (Option Word)} {state' : State}
    (h : Realizes n (inst.run (functionCode layout f) ⟨[], zeroed (f.entry args)⟩ state)
      (finishing (words f.result)) (result, state'))
    (fits : Lowered.EndFits Any f.result result) :
    ∃ ending, Corresponds result ending ∧
      inst.Ends (layout.functionIndex index) args state ending state' := by
  rcases result with halt | value?
  · obtain rfl : halt = .trapped := fits
    obtain ⟨trap, notExhausted, leads⟩ := h
    obtain ⟨bound, reached⟩ := leads.exists_eq
    refine ⟨.trapped trap, .trap trap, ?_, bound, bound + 1, ?_⟩
    · cases trap <;> trivial
    · rw [invoke_succ func, entry_eq]
      exact congrArg _ (reached bound bound (Nat.le_refl _) (Nat.le_refl _))
  · obtain ⟨y, hy, leads⟩ := h
    obtain ⟨flow, rfl, gave⟩ := ofFlow_of_finishing hy
    obtain ⟨bound, reached⟩ := leads.exists_eq
    refine ⟨.gave value?.toList, .value value?, trivial, bound, bound + 1, ?_⟩
    rw [invoke_succ func, entry_eq, ← gave]
    exact congrArg _ (reached bound bound (Nat.le_refl _) (Nat.le_refl _))

/-- A run that comes to its end with some fuel follows an evaluation that does with as much. -/
theorem corresponds_of_realizes {n depth : Nat} {result : Except Halt (Option Word)}
    {state' : State}
    (h : Realizes n (inst.run (functionCode layout f) ⟨[], zeroed (f.entry args)⟩ state)
      (finishing (words f.result)) (result, state'))
    (notStuck : result ≠ .error .stuck) {ending : Ending} {final : State} (proper : ending.Proper)
    (ended : Ending.ofFlow (functionType f).results
      (inst.run (functionCode layout f) ⟨[], zeroed (f.entry args)⟩ state n depth) =
        (ending, final)) :
    result ≠ .error .outOfFuel ∧ Corresponds result ending ∧ final = state' := by
  have finished : ¬ (inst.run (functionCode layout f) ⟨[], zeroed (f.entry args)⟩ state n
      depth).Unfinished := by
    intro unfinished
    have := Ending.not_proper_of_unfinished (functionType f).results unfinished
    rw [ended] at this
    exact this proper
  rcases result with (_ | _ | _) | value?
  · obtain ⟨trap, -, leads⟩ := h
    rw [leads.eq_of_finished finished] at ended
    cases ended
    exact ⟨by simp, .trap trap, rfl⟩
  · exact absurd rfl notStuck
  · exact absurd (h n depth (Nat.le_refl n)) finished
  · obtain ⟨y, hy, leads⟩ := h
    obtain ⟨flow, rfl, gave⟩ := ofFlow_of_finishing hy
    rw [leads.eq_of_finished finished, gave] at ended
    cases ended
    exact ⟨by simp, .value value?, rfl⟩

/-- The outcome of a function, with fuel for its loops and for the calls in it, is realized by its
code. -/
theorem realizes_eval (typed : c.Typed) (links : Links c host layout inst)
    (covers : ∀ f ∈ c.functions, CoversBlock layout f.body)
    (found : c.functions[index]? = some f) (count : args.length = f.paramCount) (n : Nat)
    (state : State) :
    Realizes n (inst.run (functionCode layout f) ⟨[], zeroed (f.entry args)⟩ state)
      (finishing (words f.result)) ((c.call host (n + 1) index args).outcome state) := by
  have mem := List.mem_of_getElem? found
  have follows := function_follows links (typed f mem)
    (Lowered.call_keeps any_admits typed (any_hostKeeps _ host) n) (calls_follow links typed covers n)
    (covers f mem) count state
  rw [Contract.call, found]
  exact follows

/-- A call that evaluation brings to an end comes to a corresponding end in the module. -/
theorem exists_ends (typed : c.Typed) (links : Links c host layout inst)
    (covers : ∀ f ∈ c.functions, CoversBlock layout f.body)
    (found : c.functions[index]? = some f) (count : args.length = f.paramCount)
    {result : Except Halt (Option Word)} {final : State}
    (h : c.Evaluates host index args state result final) :
    ∃ ending, Corresponds result ending ∧
      inst.Ends (layout.functionIndex index) args state ending final := by
  obtain ⟨table, func⟩ := links.function index f found
  have fits := h.fits any_admits typed (any_hostKeeps _ host) (getElem?_signatures found)
    (any_argsFit (typed f (List.mem_of_getElem? found)) count) trivial
  obtain ⟨notOut, fuel, outcome⟩ := h
  cases fuel with
  | zero =>
      cases outcome
      exact absurd rfl notOut
  | succ n =>
      have realizes := realizes_eval typed links covers found count n state
      rw [outcome] at realizes
      exact ends_of_realizes func realizes fits

/-- A call that comes to an end in the module comes to a corresponding end in evaluation. -/
theorem exists_evaluates (typed : c.Typed) (links : Links c host layout inst)
    (covers : ∀ f ∈ c.functions, CoversBlock layout f.body)
    (found : c.functions[index]? = some f) (count : args.length = f.paramCount) {ending : Ending}
    {final : State} (h : inst.Ends (layout.functionIndex index) args state ending final) :
    ∃ result, Corresponds result ending ∧ c.Evaluates host index args state result final := by
  obtain ⟨table, func⟩ := links.function index f found
  obtain ⟨proper, fuel, depth, ended⟩ := h
  cases depth with
  | zero =>
      simp only [Instance.invoke, func] at ended
      cases ended
      exact absurd proper id
  | succ depth =>
      rw [invoke_succ func, entry_eq] at ended
      have realizes := realizes_eval typed links covers found count fuel state
      have keeps := (Lowered.call_keeps any_admits typed (any_hostKeeps _ host) (fuel + 1) index _ args
        (getElem?_signatures found) (any_argsFit (typed f (List.mem_of_getElem? found)) count) state
        trivial).2
      rcases outcome : (c.call host (fuel + 1) index args).outcome state with ⟨result, state'⟩
      rw [outcome] at realizes keeps
      have notStuck : result ≠ .error .stuck := by
        rintro rfl
        exact keeps rfl
      obtain ⟨notOut, corresponds, rfl⟩ :=
        corresponds_of_realizes realizes notStuck proper ended
      exact ⟨result, corresponds, notOut, fuel + 1, outcome⟩

/-- Evaluation and the module come to an end for the same calls, and then to corresponding ends with
the same state of the host. -/
theorem ends_iff_evaluates (typed : c.Typed) (links : Links c host layout inst)
    (covers : ∀ f ∈ c.functions, CoversBlock layout f.body)
    (found : c.functions[index]? = some f) (count : args.length = f.paramCount) :
    ((∃ ending final, inst.Ends (layout.functionIndex index) args state ending final) ↔
      ∃ result final, c.Evaluates host index args state result final) ∧
    ∀ ending final result final', inst.Ends (layout.functionIndex index) args state ending final →
      c.Evaluates host index args state result final' →
      Corresponds result ending ∧ final = final' := by
  refine ⟨⟨?_, ?_⟩, ?_⟩
  · rintro ⟨ending, final, ends⟩
    obtain ⟨result, -, evaluates⟩ := exists_evaluates typed links covers found count ends
    exact ⟨result, final, evaluates⟩
  · rintro ⟨result, final, evaluates⟩
    obtain ⟨ending, -, ends⟩ := exists_ends typed links covers found count evaluates
    exact ⟨ending, final, ends⟩
  · intro ending final result final' ends evaluates
    obtain ⟨result', corresponds, evaluates'⟩ :=
      exists_evaluates typed links covers found count ends
    have same := evaluates.unique any_admits typed (any_hostKeeps _ host) (getElem?_signatures found)
      (any_argsFit (typed f (List.mem_of_getElem? found)) count) trivial evaluates'
    cases same
    exact ⟨corresponds, rfl⟩

end

/-! ### Accepted contracts -/

/-- What is generated for a source: its lowered form, as it is or optimized. -/
inductive LoweredFrom (source : Syntax.Contract) : Contract → Prop where
  | plain : LoweredFrom source (analyze source).contract
  | optimized (options : Lowered.Optimization.Options) :
      LoweredFrom source ((analyze source).contract.optimize options).value

theorem LoweredFrom.typed {source : Syntax.Contract} {c : Contract} (h : LoweredFrom source c)
    (accepted : Accepts source) : c.Typed := by
  cases h with
  | plain => exact accepted.typed
  | optimized options => exact accepted.typed.optimize options

/-- The functions of an accepted contract have different names. -/
theorem LoweredFrom.names_nodup {source : Syntax.Contract} {c : Contract}
    (h : LoweredFrom source c) (accepted : Accepts source) :
    (c.functions.map (·.name)).Nodup := by
  have names : ((analyze source).contract.functions.map (·.name)).Nodup := by
    rw [accepted.lowers.names]
    exact accepted.lowers.functions_nodup
  cases h with
  | plain => exact names
  | optimized options =>
      rw [Contract.optimize_functions, List.map_map]
      exact names

/-- The module generated for an accepted contract can be linked with any host. A call of a function
in it comes to an end exactly when its evaluation does, and then with the same value or both in a
trap, and with the same requests to the host behind it in the same order. -/
theorem generate_preserves_meaning {source : Syntax.Contract} (accepted : Accepts source)
    {c : Contract} (lowered : LoweredFrom source c) (debugNames : Bool) {State : Type}
    (host : Host State) {index : Nat} {f : Function} (found : c.functions[index]? = some f)
    {args : List Word} (count : args.length = f.paramCount) (state : State) :
    ∃ inst, link? host.recording (generate debugNames c) = some inst ∧
      ((∃ ending final, inst.Ends ((imports c).length + index) args (state, []) ending final) ↔
        ∃ result final, c.Evaluates host.recording index args (state, []) result final) ∧
      ∀ ending final result final',
        inst.Ends ((imports c).length + index) args (state, []) ending final →
        c.Evaluates host.recording index args (state, []) result final' →
        Corresponds result ending ∧ final = final' :=
  ⟨linked debugNames c host.recording, link?_generate debugNames c host.recording,
    ends_iff_evaluates (lowered.typed accepted) (linked_links debugNames c host.recording)
      (fun _ hf _ needed => mem_imports hf needed) found count⟩

/-- A call that traps behind a read of storage does so in the module, where the read is the only
request. -/
theorem generate_preserves_meaning_sample :
    ∃ inst, link? (Ledger.host fun _ => none).recording (generate true (analyze sample).contract) =
        some inst ∧
      ∃ trap, inst.Ends ((imports (analyze sample).contract).length + 0) [5, 0]
        (⟨fun _ => 0, []⟩, []) (.trapped trap)
        (⟨fun _ => 0, [⟨.storageLoad, [0]⟩]⟩, [⟨.storageLoad, [0]⟩]) := by
  have found : (analyze sample).contract.functions[0]? =
    some (analyze sample).contract.functions[0] := rfl
  have evaluates : (analyze sample).contract.Evaluates (Ledger.host fun _ => none).recording 0
      [5, 0] (⟨fun _ => 0, []⟩, []) (.error .trapped)
      (⟨fun _ => 0, [⟨.storageLoad, [0]⟩]⟩, [⟨.storageLoad, [0]⟩]) :=
    ⟨by simp, 3, rfl⟩
  have count : ([5, 0] : List Word).length =
    (analyze sample).contract.functions[0].paramCount := rfl
  obtain ⟨inst, link, terminates, agree⟩ := generate_preserves_meaning accepts_sample .plain true
    (Ledger.host fun _ => none) found count ⟨fun _ => 0, []⟩
  obtain ⟨ending, final, ends⟩ := terminates.2 ⟨_, _, evaluates⟩
  obtain ⟨corresponds, rfl⟩ := agree _ _ _ _ ends evaluates
  cases corresponds with
  | trap trap => exact ⟨inst, link, trap, ends⟩

end Workbench.Codegen
