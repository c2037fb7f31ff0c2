import Workbench.Proofs.Check.Acceptance
import Workbench.Proofs.Lang.Ledger
import Workbench.Proofs.Security.Activation
import Workbench.Proofs.Security.Findings

/-!
# Writes behind external calls

The rule about reentrancy goes by the text of a function, activations go by its control flow. An
assignment that an activation passes behind an external call of its own is reported, unless both
stand in one loop: there the call of one round comes before the assignment of the next, whatever
their order in the text.
-/

namespace Workbench.Security

open Source (Span)
open Lang (Builtin Word Host Eval Ledger pair_sublist_append_iff)
open Lowered (Function Contract)
open Check (Accepts analyze accepts_iff)

/-- The scan reports the rule about reentrancy for a place of a function. -/
def Reported (c : Contract) (f : Function) (span : Span) : Prop :=
  ∃ x ∈ findings defaultRules c, x.code = "S004" ∧ x.function = f.name ∧ x.span = span

theorem pattern_of_code {rule : Rule} (mem : rule ∈ defaultRules) (code : rule.code = "S004") :
    rule.pattern = .writeAfterExternalCall := by
  have all : ∀ rule ∈ defaultRules, rule.code = "S004" → rule.pattern = .writeAfterExternalCall := by
    decide
  exact all rule mem code

theorem eq_of_name_eq {c : Contract} (nodup : (c.functions.map (·.name)).Nodup) {f g : Function}
    (hf : f ∈ c.functions) (hg : g ∈ c.functions) (same : f.name = g.name) : f = g :=
  List.inj_on_of_nodup_map nodup hf hg same

theorem reported_iff_match {c : Contract} (nodup : (c.functions.map (·.name)).Nodup) {f : Function}
    (mem : f ∈ c.functions) (span : Span) :
    Reported c f span ↔ Match f .writeAfterExternalCall span := by
  constructor
  · rintro ⟨x, found, code, name, rfl⟩
    obtain ⟨g, hg, rule, hrule, span, here, rfl⟩ := mem_findings_iff.1 found
    obtain rfl := eq_of_name_eq nodup hg mem name
    rw [pattern_of_code hrule code] at here
    exact here
  · intro here
    have rule : (⟨"S004", .writeAfterExternalCall, .warning,
        "storage is written after an external call (reentrancy)"⟩ : Rule) ∈ defaultRules := by decide
    exact ⟨_, mem_findings_iff.2 ⟨f, mem, _, rule, span, here, rfl⟩, rfl, rfl, rfl⟩

/-- An assignment is reported exactly if an external call stands before it in the text. -/
theorem reported_iff {c : Contract} (nodup : (c.functions.map (·.name)).Nodup) {f : Function}
    (mem : f ∈ c.functions) (span : Span) :
    Reported c f span ↔ ∃ kind callSpan, Builtin.isExternalCall kind = true ∧
      [(Event.calls kind, callSpan), (.writesStorage, span)].Sublist (blockEvents f.body) := by
  rw [reported_iff_match nodup mem]
  constructor
  · rintro ⟨⟩
    exact ⟨_, _, ‹_›, ‹_›⟩
  · rintro ⟨kind, callSpan, external, pair⟩
    exact .writeAfterExternalCall external pair

/-- In an accepted contract an assignment is reported exactly if an external call stands before it
in the text of its function. What an activation passes can be noted without changing what it does
or comes to; an assignment that it passes behind an external call is reported or stands in one loop
with the call. -/
theorem reported_or_in_one_loop {source : Syntax.Contract} (accepted : Accepts source) {index : Nat}
    {f : Function} (found : (analyze source).contract.functions[index]? = some f) :
    (∀ span, Reported (analyze source).contract f span ↔
      ∃ kind callSpan, Builtin.isExternalCall kind = true ∧
        [(Event.calls kind, callSpan), (.writesStorage, span)].Sublist (blockEvents f.body)) ∧
    ∀ {State : Type} (host : Host State) (fuel : Nat) (args : List Word) (state : State),
      let calls := (analyze source).contract.call host
      let ended := (calls (fuel + 1) index args).outcome state
      ∃ passed,
        (passFunction host (calls fuel) f fuel args).outcome (state, []) =
          (ended.1, ended.2, passed) ∧
        ∀ kind callSpan span, Builtin.isExternalCall kind = true →
          [(Event.calls kind, callSpan), (.writesStorage, span)].Sublist passed →
          Reported (analyze source).contract f span ∨
            InOneLoop (loopsOf f.body) (.calls kind, callSpan) (.writesStorage, span) := by
  have nodup : ((analyze source).contract.functions.map (·.name)).Nodup := by
    rw [accepted.lowers.names]
    exact accepted.lowers.functions_nodup
  have reported := reported_iff nodup (List.mem_of_getElem? found)
  refine ⟨reported, ?_⟩
  intro State host fuel args state calls ended
  have notes : Eval.Notes (InOneLoop (loopsOf f.body)) (blockEvents f.body)
      (passFunction host (calls fuel) f fuel args) (f.eval host (calls fuel) fuel args) :=
    passFunction_notes f args
  obtain ⟨passed, follows, same⟩ := notes state []
  have once : ended = (f.eval host (calls fuel) fuel args).outcome state := by
    simp only [ended, calls, Contract.call, found]
    rfl
  refine ⟨passed, by rw [same, once, List.nil_append], ?_⟩
  intro kind callSpan span external pair
  refine (follows.order _ _ pair).imp_left fun inText => ?_
  exact (reported span).2 ⟨kind, callSpan, external, inText⟩

/-- A contract that pays out in rounds, each of which is booked before the payment. -/
def payout : Syntax.Contract :=
  let span : Span := ⟨0, 0⟩
  let name (text : String) : Syntax.Name := ⟨text, span⟩
  let var (text : String) : Syntax.Expr := .name text span
  let round : Syntax.Block := .mk
    [.assign (name "paid") (.binary .add (var "paid") (.int 1 span) span) span,
      .eval (.call (name "call") [var "n", var "paid"] span) span] span
  { name := name "Payout"
    storage := [⟨name "paid", .i32, span⟩]
    functions :=
      [{ name := name "pay"
         params := [⟨name "n", .i32⟩]
         result := none
         isPublic := true
         isView := false
         body := .mk
           [.require (.binary .gt (var "n") (.int 0 span) span) span,
             .whileDo (.binary .lt (var "paid") (var "n") span) round span] span
         span }]
    span }

theorem accepts_payout : Accepts payout :=
  (accepts_iff payout).2 rfl

/-- The call of the first round comes before the assignment of the second. -/
theorem reported_or_in_one_loop_payout :
    let f := (analyze payout).contract.functions[0]
    let call : Passage := (.calls .call, ⟨0, 0⟩)
    let write : Passage := (.writesStorage, ⟨0, 0⟩)
    ∃ passed, passed = [write, call, write, call] ∧
      (Reported (analyze payout).contract f ⟨0, 0⟩ ∨ InOneLoop (loopsOf f.body) call write) := by
  have found : (analyze payout).contract.functions[0]? =
    some (analyze payout).contract.functions[0] := rfl
  obtain ⟨passed, same, covered⟩ := (reported_or_in_one_loop accepts_payout found).2
    (Ledger.host fun _ => some 1) 4 [2] ⟨fun _ => 0, []⟩
  have run : passed = [(.writesStorage, ⟨0, 0⟩), (.calls .call, ⟨0, 0⟩), (.writesStorage, ⟨0, 0⟩),
      (.calls .call, ⟨0, 0⟩)] :=
    (congrArg (·.2.2) same).symm
  refine ⟨passed, run, covered .call ⟨0, 0⟩ ⟨0, 0⟩ rfl ?_⟩
  rw [run]
  decide

/-- The call comes to its end, having passed an assignment behind an external call, and nothing is
reported for it. -/
theorem unreported_write :
    Accepts payout ∧
    ∃ f, (analyze payout).contract.functions[0]? = some f ∧
    ∃ final passed,
      (passFunction (Ledger.host fun _ => some 1)
        ((analyze payout).contract.call (Ledger.host fun _ => some 1) 4) f 4 [2]).outcome
          (⟨fun _ => 0, []⟩, []) = (.ok none, final, passed) ∧
      [((Event.calls .call, ⟨0, 0⟩) : Passage), (.writesStorage, ⟨0, 0⟩)].Sublist passed ∧
      ¬ Reported (analyze payout).contract f ⟨0, 0⟩ := by
  refine ⟨accepts_payout, (analyze payout).contract.functions[0], rfl, _, _, rfl, by decide, ?_⟩
  have nodup : ((analyze payout).contract.functions.map (·.name)).Nodup := by decide
  have events : blockEvents (analyze payout).contract.functions[0].body =
    [(.requires, ⟨0, 0⟩), (.writesStorage, ⟨0, 0⟩), (.calls .call, ⟨0, 0⟩)] := rfl
  rw [reported_iff nodup (List.getElem_mem _), events]
  rintro ⟨kind, callSpan, -, pair⟩
  simp [List.sublist_cons_iff] at pair

end Workbench.Security
