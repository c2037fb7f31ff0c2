import Mathlib
import Workbench.Proofs.Check.Acceptance
import Workbench.Proofs.Lang.Ledger
import Workbench.Proofs.Lowered.OptimizationSoundness

/-!
# The optimizer keeps the meaning of accepted contracts

The relation of the two forms of a contract, stated for hosts with storage and without fuel: a call
of either form comes to an end exactly when the other does, with the same value or the same trap,
and the ledger behind it is the same, which is to say all requests in their order and the store.
-/

namespace Workbench.Lowered

open Lang (Ty Word Host Ledger)
open Check (Accepts analyze sample accepts_sample)

/-- The slots of a contract hold values of their types. -/
def Contract.StorageProper (c : Contract) (ledger : Ledger) : Prop :=
  ∀ i type, (c.storage.map (·.type))[i]? = some type →
    Proper type (ledger.storage (BitVec.ofNat 32 i))

/-- Different slots have different words as long as there are no more slots than words. -/
theorem slot_injective {count i j : Nat} (slots : count ≤ 2 ^ 32) (hi : i < count) (hj : j < count)
    (same : BitVec.ofNat 32 i = BitVec.ofNat 32 j) : i = j := by
  have h := congrArg BitVec.toNat same
  rw [BitVec.toNat_ofNat, BitVec.toNat_ofNat, Nat.mod_eq_of_lt (by omega),
    Nat.mod_eq_of_lt (by omega)] at h
  exact h

/-- A host with storage answers reads with values of the slots' types, as long as writes respect
them. -/
theorem ledger_keeps {c : Contract} (slots : c.storage.length ≤ 2 ^ 32)
    (answer : List Lang.HostCall → Option Word) :
    HostKeeps Proper c.StorageProper (c.storage.map (·.type)) (Ledger.host answer) where
  load ledger index type inv declared := by
    refine ⟨inv, fun w answered => ?_⟩
    rw [Ledger.serve_load] at answered
    cases answered
    exact inv index type declared
  store ledger index type w inv declared proper := by
    intro i type' declared'
    rw [Ledger.serve_store]
    by_cases same : BitVec.ofNat 32 i = BitVec.ofNat 32 index
    · have bound : i < c.storage.length := by
        simpa using (List.getElem?_eq_some_iff.1 declared').1
      have bound' : index < c.storage.length := by
        simpa using (List.getElem?_eq_some_iff.1 declared).1
      obtain rfl := slot_injective slots bound bound' same
      rw [declared, Option.some.injEq] at declared'
      subst declared'
      simpa [Ledger.write] using proper
    · simpa [Ledger.write, Ledger.note, same] using inv i type' declared'
  call ledger kind args inv callable := by
    intro i type declared
    rw [Ledger.storage_serve_of_callName answer ledger callable]
    exact inv i type declared

/-- An accepted contract and its optimized form come to the same ends with the same ledgers, and
neither is ever stuck. -/
theorem optimize_evaluates_iff {source : Syntax.Contract} (accepted : Accepts source)
    (slots : (analyze source).contract.storage.length ≤ 2 ^ 32)
    (options : Optimization.Options) (answer : List Lang.HostCall → Option Word)
    {index : Nat} {f : Function} (found : (analyze source).contract.functions[index]? = some f)
    {args : List Word} (fit : ArgsFit Proper f.signature.params args) {ledger : Ledger}
    (proper : (analyze source).contract.StorageProper ledger)
    (result : Except Lang.Halt (Option Word)) (ledger' : Ledger) :
    (((analyze source).contract.optimize options).value.Evaluates (Ledger.host answer) index args
        ledger result ledger' ↔
      (analyze source).contract.Evaluates (Ledger.host answer) index args ledger result ledger') ∧
    ((analyze source).contract.Evaluates (Ledger.host answer) index args ledger result ledger' →
      EndFits Proper f.result result) := by
  have typed := accepted.typed
  have hostKeeps := ledger_keeps slots answer
  have declared : ((analyze source).contract.functions.map (·.signature))[index]? =
      some f.signature := by
    rw [List.getElem?_map, found]
    rfl
  have signatures := (analyze source).contract.optimize_signatures options
  refine ⟨⟨fun h => ?_, fun h => ?_⟩, fun h => ?_⟩
  · refine h.of_approximates (· + 1) (fun fuel => ?_) (signatures ▸ declared) fit proper
    rw [signatures]
    exact call_optimize_approximates typed hostKeeps options fuel
  · exact h.of_approximates (· + 1) (call_approximates_optimize typed hostKeeps options) declared
      fit proper
  · exact h.fits proper_admits typed hostKeeps declared fit proper

/-- The optimized form of a function that decides on a doubly negated truth value and multiplies by
a power of two: it gives a product without a request, or traps behind a read of storage. -/
theorem optimize_evaluates_iff_sample :
    ((analyze sample).contract.optimize ⟨3, true⟩).value.Evaluates (Ledger.host fun _ => none) 0
        [5, 1] ⟨fun _ => 0, []⟩ (.ok (some 40)) ⟨fun _ => 0, []⟩ ∧
      ((analyze sample).contract.optimize ⟨3, true⟩).value.Evaluates (Ledger.host fun _ => none) 0
        [5, 0] ⟨fun _ => 0, []⟩ (.error .trapped) ⟨fun _ => 0, [⟨.storageLoad, [0]⟩]⟩ := by
  have found : (analyze sample).contract.functions[0]? =
    some (analyze sample).contract.functions[0] := rfl
  have proper : (analyze sample).contract.StorageProper ⟨fun _ => 0, []⟩ := by
    intro i type _
    cases type <;> first | trivial | exact Or.inl rfl
  refine ⟨?_, ?_⟩
  · have fit : ArgsFit Proper [.i32, .bool] [5, 1] :=
      ArgsFit.cons trivial (ArgsFit.cons (Or.inr rfl) ArgsFit.nil)
    exact (optimize_evaluates_iff accepts_sample (by decide) ⟨3, true⟩ (fun _ => none)
      found fit proper _ _).1.2 ⟨by simp, 3, rfl⟩
  · have fit : ArgsFit Proper [.i32, .bool] [5, 0] :=
      ArgsFit.cons trivial (ArgsFit.cons (Or.inl rfl) ArgsFit.nil)
    exact (optimize_evaluates_iff accepts_sample (by decide) ⟨3, true⟩ (fun _ => none)
      found fit proper _ _).1.2 ⟨by simp, 3, rfl⟩

end Workbench.Lowered
