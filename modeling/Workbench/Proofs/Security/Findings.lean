import Workbench.Proofs.Lang.Noting
import Workbench.Security.Scan

/-!
# What is found

The scan goes once over the events of a function. What it finds is said here without it: `Match`
gives the places where a function has the shape of a pattern, and the findings of a contract are the
matches of its rules.
-/

namespace Workbench.Security

open Source (Span)
open Lang (Builtin)
open Lowered (Function Contract)

/-- A function has the shape of a pattern at a place. -/
inductive Match (f : Function) : Pattern → Span → Prop where
  | calls {kind : Builtin} {span : Span} :
      (Event.calls kind, span) ∈ blockEvents f.body → Match f (.calls kind) span
  /-- The text has an external call and behind it, not necessarily at once, the assignment. -/
  | writeAfterExternalCall {kind : Builtin} {callSpan span : Span} :
      kind.isExternalCall = true →
      [(Event.calls kind, callSpan), (.writesStorage, span)].Sublist (blockEvents f.body) →
      Match f .writeAfterExternalCall span
  | endlessLoop {span : Span} :
      (Event.loopsEndlessly, span) ∈ blockEvents f.body → Match f .endlessLoop span
  | uncheckedPublicWrite {span : Span} :
      f.isPublic = true → (∀ at', (Event.requires, at') ∉ blockEvents f.body) →
      firstWrite? (blockEvents f.body) = some span → Match f .uncheckedPublicWrite span

/-! ### Matches at single events -/

theorem mem_markExternal_iff {seen after : Bool} {event : Event} {span : Span}
    {events : List (Event × Span)} :
    (event, span, after) ∈ markExternal seen events ↔
      ∃ before rest, events = before ++ (event, span) :: rest ∧
        after = (seen || before.any fun (event, _) => event.isExternalCall) := by
  induction events generalizing seen with
  | nil => simp [markExternal]
  | cons head rest ih =>
      obtain ⟨first, place⟩ := head
      rw [markExternal, List.mem_cons, ih]
      constructor
      · rintro (same | ⟨before, rest, rfl, rfl⟩)
        · simp only [Prod.mk.injEq] at same
          obtain ⟨rfl, rfl, rfl⟩ := same
          exact ⟨[], rest, rfl, by simp⟩
        · exact ⟨(first, place) :: before, rest, rfl, by simp [Bool.or_assoc]⟩
      · rintro ⟨before, more, split, rfl⟩
        cases before with
        | nil =>
            simp only [List.nil_append, List.cons.injEq, Prod.mk.injEq] at split
            obtain ⟨⟨rfl, rfl⟩, rfl⟩ := split
            exact .inl (by simp)
        | cons passed before =>
            simp only [List.cons_append, List.cons.injEq] at split
            obtain ⟨rfl, rfl⟩ := split
            exact .inr ⟨before, more, rfl, by simp [Bool.or_assoc]⟩

theorem exists_marked_iff {event : Event} {span : Span} {events : List (Event × Span)} :
    (∃ after, (event, span, after) ∈ markExternal false events) ↔ (event, span) ∈ events := by
  simp only [mem_markExternal_iff]
  constructor
  · rintro ⟨-, before, rest, rfl, -⟩
    simp
  · intro mem
    obtain ⟨before, rest, split⟩ := List.append_of_mem mem
    exact ⟨_, before, rest, split, rfl⟩

theorem marked_true_iff {event : Event} {span : Span} {events : List (Event × Span)} :
    (event, span, true) ∈ markExternal false events ↔
      ∃ kind callSpan, kind.isExternalCall = true ∧
        [(Event.calls kind, callSpan), (event, span)].Sublist events := by
  rw [mem_markExternal_iff]
  constructor
  · rintro ⟨before, rest, rfl, external⟩
    rw [Bool.false_or] at external
    obtain ⟨⟨event', place⟩, mem, external⟩ := List.any_eq_true.1 external.symm
    obtain ⟨kind, rfl⟩ : ∃ kind, event' = .calls kind := by
      cases event' with
      | calls kind => exact ⟨kind, rfl⟩
      | _ => exact absurd external (by simp [Event.isExternalCall])
    refine ⟨kind, place, external, Lang.pair_sublist_append_iff.2 (.inr (.inl ⟨mem, ?_⟩))⟩
    exact List.mem_cons_self
  · rintro ⟨kind, callSpan, external, pair⟩
    obtain ⟨before, rest, rfl, there, here⟩ := List.cons_sublist_iff.1 pair
    obtain ⟨middle, more, rfl⟩ := List.append_of_mem (List.singleton_sublist.1 here)
    refine ⟨before ++ middle, more, by simp, ?_⟩
    rw [Bool.false_or]
    exact (List.any_eq_true.2 ⟨_, List.mem_append_left _ there, external⟩).symm

/-- The matches of a pattern at single events. -/
theorem hits_iff {f : Function} {pattern : Pattern} {span : Span}
    (single : pattern ≠ .uncheckedPublicWrite) :
    (∃ event after, (event, span, after) ∈ markExternal false (blockEvents f.body) ∧
      pattern.hits event after = true) ↔ Match f pattern span := by
  constructor
  · rintro ⟨event, after, mem, hit⟩
    have here := exists_marked_iff.1 ⟨after, mem⟩
    unfold Pattern.hits at hit
    split at hit
    · obtain rfl := beq_iff_eq.1 hit
      exact .calls here
    · subst hit
      obtain ⟨kind, callSpan, external, pair⟩ := marked_true_iff.1 mem
      exact .writeAfterExternalCall external pair
    · exact .endlessLoop here
    · cases hit
  · rintro (here | ⟨external, pair⟩ | here | _)
    · obtain ⟨after, mem⟩ := exists_marked_iff.2 here
      exact ⟨_, after, mem, by simp [Pattern.hits]⟩
    · exact ⟨_, true, marked_true_iff.2 ⟨_, _, external, pair⟩, rfl⟩
    · obtain ⟨after, mem⟩ := exists_marked_iff.2 here
      exact ⟨_, after, mem, rfl⟩
    · exact absurd rfl single

/-! ### The findings of a contract -/

theorem hits_uncheckedPublicWrite (event : Event) (after : Bool) :
    Pattern.uncheckedPublicWrite.hits event after = false := by
  cases event <;> rfl

theorem mem_eventFindings_iff {rules : IndexedRules} {f : Function} {index : Nat} {x : Finding} :
    (index, x) ∈ eventFindings rules f.name (blockEvents f.body) ↔
      ∃ rule span, (rule, index) ∈ rules ∧ rule.pattern ≠ .uncheckedPublicWrite ∧
        Match f rule.pattern span ∧ x = rule.finding f.name span := by
  simp only [eventFindings, List.mem_flatMap, List.mem_filterMap, Prod.exists]
  constructor
  · rintro ⟨event, span, after, marked, rule, position, mem, found⟩
    split at found
    case isTrue hit =>
      simp only [Option.some.injEq, Prod.mk.injEq] at found
      obtain ⟨rfl, rfl⟩ := found
      have single : rule.pattern ≠ .uncheckedPublicWrite := by
        intro same
        rw [same, hits_uncheckedPublicWrite] at hit
        cases hit
      exact ⟨rule, span, mem, single, (hits_iff single).1 ⟨event, after, marked, hit⟩, rfl⟩
    case isFalse => cases found
  · rintro ⟨rule, span, mem, single, here, rfl⟩
    obtain ⟨event, after, marked, hit⟩ := (hits_iff single).2 here
    exact ⟨event, span, after, marked, rule, index, mem, by rw [if_pos hit]⟩

theorem mem_functionFindings_iff {rules : IndexedRules} {f : Function} {index : Nat}
    {x : Finding} :
    (index, x) ∈ functionFindings rules f (blockEvents f.body) ↔
      ∃ rule span, (rule, index) ∈ rules ∧ rule.pattern = .uncheckedPublicWrite ∧
        Match f rule.pattern span ∧ x = rule.finding f.name span := by
  have unchecked : (f.isPublic && !(blockEvents f.body).any fun (event, _) => event == .requires) =
      true ↔ f.isPublic = true ∧ ∀ at', (Event.requires, at') ∉ blockEvents f.body := by
    simp only [Bool.and_eq_true, Bool.not_eq_true', List.any_eq_false, beq_iff_eq, Prod.forall]
    constructor
    · rintro ⟨isPublic, none⟩
      exact ⟨isPublic, fun at' mem => none _ at' mem rfl⟩
    · rintro ⟨isPublic, none⟩
      refine ⟨isPublic, fun event at' mem same => ?_⟩
      subst same
      exact none at' mem
  constructor
  · intro mem
    unfold functionFindings at mem
    split at mem
    case h_1 => cases mem
    case h_2 span first =>
      split at mem
      case isFalse => cases mem
      case isTrue open' =>
        obtain ⟨isPublic, none⟩ := unchecked.1 open'
        obtain ⟨⟨rule, position⟩, there, found⟩ := List.mem_filterMap.1 mem
        simp only [beq_iff_eq, Option.ite_none_right_eq_some, Option.some.injEq,
          Prod.mk.injEq] at found
        obtain ⟨same, rfl, rfl⟩ := found
        refine ⟨rule, span, there, same, ?_, rfl⟩
        rw [same]
        exact .uncheckedPublicWrite isPublic none first
  · rintro ⟨rule, span, mem, same, here, rfl⟩
    rw [same] at here
    cases here with
    | uncheckedPublicWrite isPublic none first =>
        simp only [functionFindings, first]
        rw [if_pos (unchecked.2 ⟨isPublic, none⟩)]
        exact List.mem_filterMap.2 ⟨(rule, index), mem, by simp [same]⟩

/-- What is found in a contract are the matches of the rules, whatever the order of the findings. -/
theorem mem_findings_iff {rules : List Rule} {c : Contract} {x : Finding} :
    x ∈ findings rules c ↔
      ∃ f ∈ c.functions, ∃ rule ∈ rules, ∃ span,
        Match f rule.pattern span ∧ x = rule.finding f.name span := by
  simp only [findings, List.mem_map, List.mem_mergeSort, unordered, List.mem_flatMap,
    List.mem_append, Prod.exists, exists_eq_right, mem_eventFindings_iff,
    mem_functionFindings_iff]
  constructor
  · rintro ⟨index, f, mem, ⟨rule, span, there, -, found⟩ | ⟨rule, span, there, -, found⟩⟩
    · exact ⟨f, mem, rule, List.fst_mem_of_mem_zipIdx there, span, found⟩
    · exact ⟨f, mem, rule, List.fst_mem_of_mem_zipIdx there, span, found⟩
  · rintro ⟨f, mem, rule, there, span, found⟩
    obtain ⟨index, there⟩ := List.mem_iff_getElem?.1 there
    replace there : (rule, index) ∈ rules.zipIdx := List.mem_zipIdx_iff_getElem?.2 there
    refine ⟨index, f, mem, ?_⟩
    by_cases same : rule.pattern = .uncheckedPublicWrite
    · exact .inr ⟨rule, span, there, same, found⟩
    · exact .inl ⟨rule, span, there, same, found⟩

end Workbench.Security
