import Workbench.Proofs.Codegen.Correctness
import Workbench.Proofs.Lowered.OptimizationMeaning
import Workbench.Proofs.Lowered.Safety

/-!
# Accepted contracts do not go wrong

Runs of an accepted contract under watch are safe, and a call in its module comes to an end only as
a run under watch does. What codegen puts behind the body of a function that owes a value is there
for the validator alone: control never gets to it.
-/

namespace Workbench.Codegen

open Lang (Word Host Eval Ledger)
open Lang.Eval (Keeps)
open Check (Accepts analyze sample accepts_sample)
open Lowered (Function Contract HostKeeps ArgsFit Proper FlowFits proper_admits any_admits
  any_hostKeeps any_argsFit)
open Wasm (Instance Flow Run)
open Wasm.Instance (entry)

section

variable {State : Type} {c : Contract} {host : Host State} {layout : Layout} {inst : Instance State}
  {index : Nat} {f : Function} {args : List Word} {state : State}

/-! ### Behind the body of a function -/

/-- A run that leads to its end elsewhere is not left at the end of its code. -/
theorem ne_next_of_leads {run : Run State} {flow : Flow State} (leads : run.Leads (Run.halted flow))
    (elsewhere : ∀ act state, flow ≠ .next act state) (fuel depth : Nat) (act : Wasm.Activation)
    (final : State) : run fuel depth ≠ .next act final := by
  intro left
  have finished : ¬ (run fuel depth).Unfinished := by
    rw [left]
    exact id
  exact elsewhere act final ((leads.eq_of_finished finished).symm.trans left)

/-- A run that follows an evaluation is not left at the end of its code if no value that the
evaluation can have leads there. -/
theorem ne_next_of_follows {α : Type} {P : α → Prop} {n : Nat} {x : Eval State α} {run : Run State}
    {expected : Expected State α} (follows : Follows n x state run expected)
    (keeps : Keeps (fun _ => True) P x)
    (elsewhere : ∀ a state y, P a → expected a state y →
      ∃ flow, y = Run.halted flow ∧ ∀ act state, flow ≠ .next act state)
    {fuel : Nat} (low : fuel ≤ n) (depth : Nat) (act : Wasm.Activation) (final : State) :
    run fuel depth ≠ .next act final := by
  have value := (keeps state trivial).2
  unfold Follows at follows
  rcases outcome : x.outcome state with ⟨(_ | _ | _) | a, state'⟩ <;> rw [outcome] at follows value
  · obtain ⟨trap, -, leads⟩ := follows
    exact ne_next_of_leads leads (by simp) fuel depth act final
  · exact absurd rfl value
  · intro left
    have unfinished := follows fuel depth low
    rw [left] at unfinished
    exact unfinished
  · obtain ⟨y, hy, leads⟩ := follows
    obtain ⟨flow, rfl, notNext⟩ := elsewhere a state' y value hy
    exact ne_next_of_leads leads notNext fuel depth act final

/-- The code of the body of a function that owes a value is never left at its end. -/
theorem body_ne_next (typed : c.Typed) (links : Links c host layout inst)
    (covers : ∀ f ∈ c.functions, CoversBlock layout f.body)
    (found : c.functions[index]? = some f) (count : args.length = f.paramCount)
    (owes : f.result.hasValue) (fuel depth : Nat) (act : Wasm.Activation) (final : State) :
    inst.exec fuel depth (blockCode layout f.body) ⟨[], zeroed (f.entry args)⟩ state ≠
      .next act final := by
  have mem := List.mem_of_getElem? found
  have callsKeep := Lowered.call_keeps any_admits typed (any_hostKeeps _ host) fuel
  have holds := Lowered.entry_holds (typed f mem) (any_argsFit (typed f mem) count)
  have keeps : Keeps (fun _ => True)
      (FlowFits Any (c.context f) (Lowered.liveAfter (List.range f.paramCount) f.body)
        (Lowered.Stmt.anyDiverges f.body))
      (Lowered.evalStmts host (c.call host fuel) fuel (f.entry args) f.body) :=
    Lowered.evalStmts_keeps any_admits (any_hostKeeps (c.context f).storage host) callsKeep holds
      (typed f mem).body
  -- As much fuel for the evaluation as the run has lets the run decide when it is used up.
  have follows := block_follows links callsKeep (calls_follow links typed covers fuel) holds
    (typed f mem).body (covers f mem) [] [] state
  rw [List.append_nil] at follows
  refine ne_next_of_follows follows keeps (fun flow state' y fits hy => ?_) (Nat.le_refl fuel)
    depth act final
  cases flow with
  | next locals => exact absurd ((typed f mem).returns owes) (by simp [fits.1])
  | returned value =>
      obtain ⟨act', -, rfl⟩ := hy
      exact ⟨_, rfl, by simp⟩

/-! ### Ends of calls -/

/-- What stands behind the body of a function that owes a value is never run, and a call in the
module comes to an end only as a run under watch does, or exhausts the stack. -/
structure GoesAsWatched (c : Contract) (host : Host State) (index : Nat) (f : Function)
    (args : List Word) (state : State) (inst : Instance State) (number : Nat) : Prop where
  behind : f.result.hasValue → ∃ g type code, inst.func? number = some (g, type) ∧
    g.body = code ++ [.unreachable] ∧ ∀ rest fuel depth,
      inst.exec fuel depth (code ++ rest) (entry g args) state =
        inst.exec fuel depth g.body (entry g args) state
  notStuck : ∀ fuel depth final, inst.invoke fuel depth number args state ≠ (.stuck, final)
  value : ∀ fuel depth given final,
    inst.invoke fuel depth number args state = (.gave given, final) →
    ∃ bound value log, (c.watch host bound index args).outcome (state, []) =
      (.ok value, final, log) ∧ given = value.toList
  trap : ∀ fuel depth trap final,
    inst.invoke fuel depth number args state = (.trapped trap, final) →
    trap = .stackExhausted ∨ ∃ bound log g cause,
      (c.watch host bound index args).outcome (state, []) = (.error .trapped, final, log) ∧
      log.getLast? = some (g, .traps cause) ∧ cause.Sound host

theorem goesAsWatched (typed : c.Typed) (links : Links c host layout inst)
    (covers : ∀ f ∈ c.functions, CoversBlock layout f.body)
    (found : c.functions[index]? = some f) (count : args.length = f.paramCount) :
    GoesAsWatched c host index f args state inst (layout.functionIndex index) := by
  have fit := any_argsFit (typed f (List.mem_of_getElem? found)) count
  -- An end that is not forced by a bound is the end of an evaluation, which can be watched.
  have watched {ending : Instance.Ending} {fuel depth : Nat} {final : State}
      (ended : inst.invoke fuel depth (layout.functionIndex index) args state = (ending, final))
      (proper : ending.Proper) :
      ∃ result bound log, Corresponds result ending ∧
        (c.watch host bound index args).outcome (state, []) = (result, final, log) ∧
        c.Safe host Any f result log := by
    obtain ⟨result, corresponds, -, bound, outcome⟩ :=
      exists_evaluates typed links covers found count ⟨proper, fuel, depth, ended⟩
    obtain ⟨result', final', log, watched, called, safe⟩ :=
      Lowered.watch_safe any_admits typed (any_hostKeeps _ host) found fit trivial bound
    cases outcome.symm.trans called
    exact ⟨result, bound, log, corresponds, watched, safe⟩
  constructor
  · intro owes
    obtain ⟨table, func⟩ := links.function index f found
    have body :
        (functionEntry layout table f).body = blockCode layout f.body ++ [.unreachable] := by
      rw [functionEntry, functionCode, if_pos owes]
    refine ⟨_, _, _, func, body, fun rest fuel depth => ?_⟩
    have stopped : ∀ act final, inst.exec fuel depth (blockCode layout f.body)
        ⟨[], zeroed (f.entry args)⟩ state ≠ .next act final :=
      body_ne_next typed links covers found count owes fuel depth
    rw [entry_eq, body, inst.exec_append_of_stopped rest stopped,
      inst.exec_append_of_stopped [.unreachable] stopped]
  · intro fuel depth final ended
    obtain ⟨result, bound, log, corresponds, -, -⟩ := watched ended trivial
    cases corresponds
  · intro fuel depth given final ended
    obtain ⟨result, bound, log, corresponds, watched, -⟩ := watched ended trivial
    cases corresponds with
    | value value => exact ⟨bound, value, log, watched, rfl⟩
  · intro fuel depth trap final ended
    by_cases exhausted : trap = .stackExhausted
    · exact .inl exhausted
    · have proper : (Instance.Ending.trapped trap).Proper := by
        cases trap <;> trivial
      obtain ⟨result, bound, log, corresponds, watched, safe⟩ := watched ended proper
      cases corresponds
      obtain ⟨g, cause, last⟩ := safe.trap rfl
      exact .inr ⟨bound, log, g, cause, watched, last,
        (safe.steps _ (List.mem_of_getLast? last)).2⟩

end

/-! ### Accepted contracts -/

/-- An accepted contract does not go wrong, with any host, arguments and fuel. In a run of it a
local is only read where it has been given a value, values have their types, and truth values are
zero and one if those in the arguments and in storage are; control falls through no statement and no
block that diverges; and only a failed requirement, a division or remainder without a value and the
host cause a trap. The module comes to an end as these runs do, but for an exhausted stack, and
control gets to nothing that stands behind the body of a function that owes a value. -/
theorem accepted_does_not_go_wrong {source : Syntax.Contract} (accepted : Accepts source)
    {c : Contract} (lowered : LoweredFrom source c) {State : Type} (host : Host State)
    {index : Nat} {f : Function} (found : c.functions[index]? = some f) {args : List Word}
    (count : args.length = f.paramCount) (state : State) :
    (∀ fuel, ∃ result final log,
      (c.watch host fuel index args).outcome (state, []) = (result, final, log) ∧
      (c.call host fuel index args).outcome state = (result, final) ∧
      c.Safe host Any f result log ∧
      ∀ Inv, HostKeeps Proper Inv (c.storage.map (·.type)) host → Inv state →
        ArgsFit Proper f.signature.params args → c.Safe host Proper f result log) ∧
    ∀ debugNames, ∃ inst, link? host (generate debugNames c) = some inst ∧
      GoesAsWatched c host index f args state inst ((imports c).length + index) := by
  have typed := lowered.typed accepted
  refine ⟨fun fuel => ?_, fun debugNames => ?_⟩
  · obtain ⟨result, final, log, watched, called, safe⟩ := Lowered.watch_safe any_admits typed
      (any_hostKeeps _ host) found (any_argsFit (typed f (List.mem_of_getElem? found)) count)
      trivial fuel
    refine ⟨result, final, log, watched, called, safe, fun Inv hostKeeps inv fit => ?_⟩
    obtain ⟨result', final', log', watched', -, proper⟩ :=
      Lowered.watch_safe proper_admits typed hostKeeps found fit inv fuel
    cases watched.symm.trans watched'
    exact proper
  · exact ⟨linked debugNames c host, link?_generate debugNames c host,
      goesAsWatched typed (linked_links debugNames c host)
        (fun _ hf _ needed => mem_imports hf needed) found count⟩

/-- The slot is read without its being open, so the requirement that it is fails. -/
theorem accepted_does_not_go_wrong_sample :
    (∃ final log, ((analyze sample).contract.watch (Ledger.host fun _ => none) 3 0 [5, 0]).outcome
        (⟨fun _ => 0, []⟩, []) = (.error .trapped, final, log) ∧
      (analyze sample).contract.Safe (Ledger.host fun _ => none) Proper
        (analyze sample).contract.functions[0] (.error .trapped) log) ∧
    ∃ inst, link? (Ledger.host fun _ => none) (generate true (analyze sample).contract) =
        some inst ∧
      GoesAsWatched (analyze sample).contract (Ledger.host fun _ => none) 0
        (analyze sample).contract.functions[0] [5, 0] ⟨fun _ => 0, []⟩ inst
        ((imports (analyze sample).contract).length + 0) := by
  have found : (analyze sample).contract.functions[0]? =
    some (analyze sample).contract.functions[0] := rfl
  have count : ([5, 0] : List Word).length =
    (analyze sample).contract.functions[0].paramCount := rfl
  have inv : (analyze sample).contract.StorageProper ⟨fun _ => 0, []⟩ := by
    intro i type _
    cases type <;> first | trivial | exact Or.inl rfl
  have fit : ArgsFit Proper [.i32, .bool] [5, 0] :=
    ArgsFit.cons trivial (ArgsFit.cons (Or.inl rfl) ArgsFit.nil)
  have called : ((analyze sample).contract.call (Ledger.host fun _ => none) 3 0 [5, 0]).outcome
    ⟨fun _ => 0, []⟩ = (.error .trapped, ⟨fun _ => 0, [⟨.storageLoad, [0]⟩]⟩) := rfl
  obtain ⟨runs, module⟩ := accepted_does_not_go_wrong accepts_sample .plain
    (Ledger.host fun _ => none) found count ⟨fun _ => 0, []⟩
  obtain ⟨result, final, log, watched, called', -, proper⟩ := runs 3
  cases called.symm.trans called'
  exact ⟨⟨_, log, watched, proper _ (Lowered.ledger_keeps (by decide) _) inv fit⟩, module true⟩

end Workbench.Codegen
