import Workbench.Proofs.Security.Scanning
import Workbench.Proofs.Security.Findings

/-!
# Where something is found

Two findings can be equal, so a list of them does not say how often a shape has been found. A site
does: it names a rule and the node of the contract at which the rule applies. The findings of a
contract are one for each site, and they are in order.
-/

namespace Workbench.Security

open Source (Span)
open Lang (Builtin flatMap_zipIdx pairwise_zipIdx pairwise_mergeSort_stable)
open Lowered (Expr Stmt Node Function Contract)

/-! ### Sites -/

/-- A node assigns to storage, and none that is met before it does. -/
def IsFirstWrite (f : Function) (path : List Nat) (span : Span) : Prop :=
  (∃ slot value, f.at? path = some (.stmt (.store slot value span))) ∧
    ∀ other slot value span, f.at? other = some (.stmt (.store slot value span)) →
      other = path ∨ momentOf f path < momentOf f other

/-- A function has the shape of a pattern at the node that a path leads to. -/
inductive MatchAt (f : Function) : Pattern → List Nat → Span → Prop where
  | calls {kind : Builtin} {path : List Nat} {args : List Expr} {span : Span} :
      f.at? path = some (.expr (.builtin kind args span)) → MatchAt f (.calls kind) path span
  /-- The call may be in the value that is assigned. -/
  | writeAfterExternalCall {path callPath : List Nat} {slot : Nat} {value : Expr} {kind : Builtin}
      {args : List Expr} {callSpan span : Span} :
      f.at? path = some (.stmt (.store slot value span)) →
      f.at? callPath = some (.expr (.builtin kind args callSpan)) → kind.isExternalCall →
      momentOf f callPath < momentOf f path → MatchAt f .writeAfterExternalCall path span
  | endlessLoop {path : List Nat} {body : List Stmt} {condSpan span : Span} :
      f.at? path = some (.stmt (.whileDo (.bool true condSpan) body span)) →
      MatchAt f .endlessLoop path span
  /-- A public function is reported once, however often it assigns. -/
  | uncheckedPublicWrite {path : List Nat} {span : Span} :
      f.isPublic → (∀ path cond span, f.at? path ≠ some (.stmt (.require cond span))) →
      IsFirstWrite f path span → MatchAt f .uncheckedPublicWrite path span

/-- A rule of a list and a node of a contract, by the position of its function and its path. -/
structure Site where
  function : Nat
  rule : Nat
  path : List Nat
  deriving DecidableEq

/-- A rule applies at a site, and the finding says so. -/
def Site.Reports (rules : List Rule) (c : Contract) (site : Site) (x : Finding) : Prop :=
  ∃ f rule span, c.functions[site.function]? = some f ∧ rules[site.rule]? = some rule ∧
    MatchAt f rule.pattern site.path span ∧ x = rule.finding f.name span

/-- The node of a site is met before that of another. -/
def Site.MetBefore (c : Contract) (a b : Site) : Prop :=
  a.function < b.function ∨ a.function = b.function ∧
    ∃ f, c.functions[a.function]? = some f ∧ momentOf f a.path < momentOf f b.path

/-- The order of findings: by place, then by rule, then as their nodes are met. -/
def Earlier (c : Contract) (a b : Site × Finding) : Prop :=
  a.2.span.start < b.2.span.start ∨ a.2.span.start = b.2.span.start ∧
    (a.1.rule < b.1.rule ∨ a.1.rule = b.1.rule ∧ a.1.MetBefore c b.1)

/-! ### Matches at events -/

section

variable {f : Function} {path : List Nat} {span : Span}

/-- Whether an external call is met before a node. -/
def afterExternal (f : Function) (path : List Nat) : Bool :=
  (eventsAt f).any fun (before, event, _) =>
    event.isExternalCall && decide (momentOf f before < momentOf f path)

theorem markExternal_of_pairwise (before events : List (List Nat × Event × Span))
    (met : (before ++ events).Pairwise fun a b => momentOf f a.1 < momentOf f b.1) :
    markExternal (before.any fun (_, event, _) => event.isExternalCall) (events.map (·.2)) =
      events.map fun (path, event, span) =>
        (event, span, (before ++ events).any fun (before, event, _) =>
          event.isExternalCall && decide (momentOf f before < momentOf f path)) := by
  induction events generalizing before with
  | nil => rfl
  | cons x rest ih =>
      have ih := ih (before ++ [x]) (by simpa using met)
      obtain ⟨-, later, earlier⟩ := List.pairwise_append.1 met
      have here : (before.any fun (_, event, _) => event.isExternalCall) =
          (before ++ x :: rest).any fun (before, event, _) =>
            event.isExternalCall && decide (momentOf f before < momentOf f x.1) := by
        rw [Bool.eq_iff_iff, List.any_eq_true, List.any_eq_true]
        constructor
        · rintro ⟨y, mem, external⟩
          exact ⟨y, List.mem_append_left _ mem,
            by simp [external, earlier y mem x List.mem_cons_self]⟩
        · rintro ⟨y, mem, external⟩
          rw [Bool.and_eq_true, decide_eq_true_iff] at external
          rcases List.mem_append.1 mem with mem | mem
          · exact ⟨y, mem, external.1⟩
          · rcases List.mem_cons.1 mem with rfl | mem
            · exact absurd external.2 (List.lt_irrefl _)
            · have back := (List.pairwise_cons.1 later).1 y mem
              exact absurd (List.lt_trans back external.2) (List.lt_irrefl _)
      refine List.cons_eq_cons.2 ⟨by rw [here], ?_⟩
      simpa using ih

theorem markExternal_eventsAt (f : Function) :
    markExternal false (blockEvents f.body) =
      (eventsAt f).map fun (path, event, span) => (event, span, afterExternal f path) := by
  rw [← map_eventsAt]
  exact markExternal_of_pairwise [] (eventsAt f) (pairwise_eventsAt f)

theorem afterExternal_iff :
    afterExternal f path = true ↔ ∃ callPath kind args callSpan,
      f.at? callPath = some (.expr (.builtin kind args callSpan)) ∧ kind.isExternalCall ∧
      momentOf f callPath < momentOf f path := by
  simp only [afterExternal, List.any_eq_true, Prod.exists, Bool.and_eq_true, decide_eq_true_iff]
  constructor
  · rintro ⟨callPath, event, callSpan, mem, external, before⟩
    obtain ⟨kind, rfl⟩ : ∃ kind, event = .calls kind := by
      cases event with
      | calls kind => exact ⟨kind, rfl⟩
      | _ => cases external
    obtain ⟨n, there, own⟩ := mem_eventsAt_iff.1 mem
    obtain ⟨args, rfl⟩ := nodeEvent?_eq_calls_iff.1 own
    exact ⟨callPath, kind, args, callSpan, there, external, before⟩
  · rintro ⟨callPath, kind, args, callSpan, there, external, before⟩
    exact ⟨callPath, .calls kind, callSpan, mem_eventsAt_iff.2 ⟨_, there, rfl⟩, external, before⟩

/-- The matches of a pattern at single events. -/
theorem hits_iff_matchAt {pattern : Pattern} (single : pattern ≠ .uncheckedPublicWrite) :
    (∃ event, (path, event, span) ∈ eventsAt f ∧
      pattern.hits event (afterExternal f path) = true) ↔ MatchAt f pattern path span := by
  constructor
  · rintro ⟨event, mem, hit⟩
    obtain ⟨n, there, own⟩ := mem_eventsAt_iff.1 mem
    unfold Pattern.hits at hit
    split at hit
    · obtain rfl := beq_iff_eq.1 hit
      obtain ⟨args, rfl⟩ := nodeEvent?_eq_calls_iff.1 own
      exact .calls there
    · obtain ⟨slot, value, rfl⟩ := nodeEvent?_eq_writesStorage_iff.1 own
      obtain ⟨callPath, kind, args, callSpan, call, external, before⟩ := afterExternal_iff.1 hit
      exact .writeAfterExternalCall there call external before
    · obtain ⟨at', body, rfl⟩ := nodeEvent?_eq_loopsEndlessly_iff.1 own
      exact .endlessLoop there
    · cases hit
  · rintro (there | ⟨there, call, external, before⟩ | there | _)
    · exact ⟨_, mem_eventsAt_iff.2 ⟨_, there, rfl⟩, by simp [Pattern.hits]⟩
    · exact ⟨_, mem_eventsAt_iff.2 ⟨_, there, rfl⟩,
        afterExternal_iff.2 ⟨_, _, _, _, call, external, before⟩⟩
    · exact ⟨_, mem_eventsAt_iff.2 ⟨_, there, rfl⟩, rfl⟩
    · exact absurd rfl single

/-- The first assignment to storage, if there is one, with its path. -/
def firstWriteAt? (f : Function) : Option (List Nat × Span) :=
  ((eventsAt f).find? fun (_, event, _) => event == .writesStorage).map
    fun (path, _, span) => (path, span)

theorem firstWrite?_eq (f : Function) :
    firstWrite? (blockEvents f.body) = (firstWriteAt? f).map (·.2) := by
  rw [firstWrite?, ← map_eventsAt, List.find?_map, firstWriteAt?, Option.map_map, Option.map_map]
  rfl

theorem IsFirstWrite.unique {path' : List Nat} {span' : Span} (h : IsFirstWrite f path span)
    (h' : IsFirstWrite f path' span') : path = path' ∧ span = span' := by
  obtain ⟨⟨slot, value, there⟩, first⟩ := h
  obtain ⟨⟨slot', value', there'⟩, first'⟩ := h'
  obtain rfl : path = path' := by
    rcases first' _ _ _ _ there with same | before
    · exact same
    · rcases first _ _ _ _ there' with same | after
      · exact same.symm
      · exact absurd (List.lt_trans before after) (List.lt_irrefl _)
  simp only [there, Option.some.injEq, Node.stmt.injEq, Stmt.store.injEq] at there'
  exact ⟨rfl, there'.2.2⟩

theorem isFirstWrite_of_firstWriteAt? (h : firstWriteAt? f = some (path, span)) :
    IsFirstWrite f path span := by
  obtain ⟨⟨path, event, span⟩, found, same⟩ := Option.map_eq_some_iff.1 h
  cases same
  obtain ⟨writes, before, after, split, none⟩ := List.find?_eq_some_iff_append.1 found
  obtain rfl : event = .writesStorage := beq_iff_eq.1 writes
  have mem : (path, .writesStorage, span) ∈ eventsAt f := List.mem_of_find?_eq_some found
  obtain ⟨n, there, own⟩ := mem_eventsAt_iff.1 mem
  obtain ⟨slot, value, rfl⟩ := nodeEvent?_eq_writesStorage_iff.1 own
  refine ⟨⟨slot, value, there⟩, fun other slot' value' span' there' => ?_⟩
  have mem' : (other, .writesStorage, span') ∈ eventsAt f := mem_eventsAt_iff.2 ⟨_, there', rfl⟩
  have met := pairwise_eventsAt f
  rw [split] at mem' met
  rcases List.mem_append.1 mem' with passed | rest
  · exact absurd (none _ passed) (by simp)
  · rcases List.mem_cons.1 rest with same | rest
    · exact .inl (congrArg Prod.fst same)
    · exact .inr ((List.pairwise_cons.1 (List.pairwise_append.1 met).2.1).1 _ rest)

theorem firstWriteAt?_eq_some_iff :
    firstWriteAt? f = some (path, span) ↔ IsFirstWrite f path span := by
  refine ⟨isFirstWrite_of_firstWriteAt?, fun first => ?_⟩
  cases found : firstWriteAt? f with
  | none =>
      obtain ⟨⟨slot, value, there⟩, -⟩ := first
      have passed := List.find?_eq_none.1 (Option.map_eq_none_iff.1 found) _
        (mem_eventsAt_iff.2 ⟨_, there, rfl⟩)
      exact absurd (beq_self_eq_true _) passed
  | some write =>
      obtain ⟨rfl, rfl⟩ := (isFirstWrite_of_firstWriteAt? found).unique first
      rfl

end

/-! ### The rows of a contract -/

section

variable {f : Function} {rules : List Rule} {c : Contract} {position : Nat} {path : List Nat}
  {span : Span} {applies : Rule → Bool} {site : Site} {x : Finding}

/-- What the order of findings sees of a row. -/
def rowKey (row : Site × Finding) : Nat × Finding :=
  (row.1.rule, row.2)

/-- The findings of the rules that apply at a node. -/
def ruleRows (rules : List Rule) (position : Nat) (f : Function) (path : List Nat) (span : Span)
    (applies : Rule → Bool) : List (Site × Finding) :=
  rules.zipIdx.filterMap fun (rule, index) =>
    if applies rule then some (⟨position, index, path⟩, rule.finding f.name span) else none

theorem map_ruleRows :
    (ruleRows rules position f path span applies).map rowKey =
      rules.zipIdx.filterMap fun (rule, index) =>
        if applies rule then some (index, rule.finding f.name span) else none := by
  rw [ruleRows, List.map_filterMap]
  refine List.filterMap_congr fun (rule, index) _ => ?_
  simp only [apply_ite (Option.map rowKey)]
  rfl

theorem mem_ruleRows_iff :
    (site, x) ∈ ruleRows rules position f path span applies ↔
      site.function = position ∧ site.path = path ∧
      ∃ rule, rules[site.rule]? = some rule ∧ applies rule ∧ x = rule.finding f.name span := by
  simp only [ruleRows, List.mem_filterMap, Prod.exists, List.mem_zipIdx_iff_getElem?,
    Option.ite_none_right_eq_some, Option.some.injEq, Prod.mk.injEq]
  constructor
  · rintro ⟨rule, index, there, applies, rfl, rfl⟩
    exact ⟨rfl, rfl, rule, there, applies, rfl⟩
  · rintro ⟨rfl, rfl, rule, there, applies, rfl⟩
    exact ⟨rule, site.rule, there, applies, rfl, rfl⟩

theorem pairwise_ruleRows :
    (ruleRows rules position f path span applies).Pairwise fun a b => a.1.rule ≠ b.1.rule := by
  refine List.pairwise_filterMap.2 ((pairwise_zipIdx rules).imp ?_)
  rintro ⟨rule, i⟩ ⟨rule', j⟩ less a ha b hb
  simp only [Option.ite_none_right_eq_some, Option.some.injEq] at ha hb
  obtain ⟨-, rfl⟩ := ha
  obtain ⟨-, rfl⟩ := hb
  exact Nat.ne_of_lt less

/-- The findings at the events of a function, with their sites. -/
def eventRows (rules : List Rule) (position : Nat) (f : Function) : List (Site × Finding) :=
  (eventsAt f).flatMap fun (path, event, span) =>
    ruleRows rules position f path span fun rule =>
      rule.pattern.hits event (afterExternal f path)

/-- The findings about a function as a whole, with their sites. -/
def functionRows (rules : List Rule) (position : Nat) (f : Function) : List (Site × Finding) :=
  match firstWriteAt? f with
  | none => []
  | some (path, span) =>
      if f.isPublic && !(blockEvents f.body).any (fun (event, _) => event == .requires) then
        ruleRows rules position f path span fun rule => rule.pattern == .uncheckedPublicWrite
      else []

/-- The findings of a contract in the order in which they are met, with their sites. -/
def rows (rules : List Rule) (c : Contract) : List (Site × Finding) :=
  c.functions.zipIdx.flatMap fun (f, position) =>
    eventRows rules position f ++ functionRows rules position f

theorem map_rows (rules : List Rule) (c : Contract) :
    (rows rules c).map rowKey = unordered rules c := by
  have atEvents (position : Nat) (f : Function) : (eventRows rules position f).map rowKey =
      eventFindings rules.zipIdx f.name (blockEvents f.body) := by
    rw [eventRows, eventFindings, markExternal_eventsAt, List.flatMap_map, List.map_flatMap]
    refine List.flatMap_congr ?_
    rintro ⟨path, event, span⟩ -
    exact map_ruleRows
  have atFunction (position : Nat) (f : Function) : (functionRows rules position f).map rowKey =
      functionFindings rules.zipIdx f (blockEvents f.body) := by
    rw [functionRows, functionFindings, firstWrite?_eq]
    cases firstWriteAt? f with
    | none => rfl
    | some write =>
        simp only [Option.map_some, apply_ite (List.map rowKey), map_ruleRows, List.map_nil]
  rw [rows, unordered, List.map_flatMap]
  refine flatMap_zipIdx ?_
  rintro ⟨f, position⟩ -
  rw [List.map_append, atEvents, atFunction]

/-! ### One row for each site -/

theorem mem_eventRows_iff :
    (site, x) ∈ eventRows rules position f ↔
      site.function = position ∧ ∃ rule span, rules[site.rule]? = some rule ∧
        rule.pattern ≠ .uncheckedPublicWrite ∧ MatchAt f rule.pattern site.path span ∧
        x = rule.finding f.name span := by
  simp only [eventRows, List.mem_flatMap, Prod.exists, mem_ruleRows_iff]
  constructor
  · rintro ⟨path, event, span, mem, rfl, rfl, rule, there, hit, rfl⟩
    have single : rule.pattern ≠ .uncheckedPublicWrite := by
      intro same
      rw [same, hits_uncheckedPublicWrite] at hit
      cases hit
    exact ⟨rfl, rule, span, there, single, (hits_iff_matchAt single).1 ⟨event, mem, hit⟩, rfl⟩
  · rintro ⟨rfl, rule, span, there, single, here, rfl⟩
    obtain ⟨event, mem, hit⟩ := (hits_iff_matchAt single).2 here
    exact ⟨site.path, event, span, mem, rfl, rfl, rule, there, hit, rfl⟩

theorem requiresNothing_iff :
    (!(blockEvents f.body).any fun (event, _) => event == .requires) = true ↔
      ∀ path cond span, f.at? path ≠ some (.stmt (.require cond span)) := by
  rw [← map_eventsAt, List.any_map, Bool.not_eq_true', List.any_eq_false]
  constructor
  · intro none path cond span there
    exact none _ (mem_eventsAt_iff.2 ⟨_, there, rfl⟩) (beq_self_eq_true _)
  · rintro none ⟨path, event, span⟩ mem requires
    obtain rfl : event = .requires := beq_iff_eq.1 requires
    obtain ⟨n, there, own⟩ := mem_eventsAt_iff.1 mem
    obtain ⟨cond, rfl⟩ := nodeEvent?_eq_requires_iff.1 own
    exact none path cond span there

theorem mem_functionRows_iff :
    (site, x) ∈ functionRows rules position f ↔
      site.function = position ∧ ∃ rule span, rules[site.rule]? = some rule ∧
        rule.pattern = .uncheckedPublicWrite ∧ MatchAt f rule.pattern site.path span ∧
        x = rule.finding f.name span := by
  constructor
  · intro mem
    unfold functionRows at mem
    split at mem
    case h_1 => cases mem
    case h_2 path span first =>
      split at mem
      case isFalse => cases mem
      case isTrue open' =>
        obtain ⟨rfl, rfl, rule, there, same, rfl⟩ := mem_ruleRows_iff.1 mem
        obtain ⟨isPublic, none⟩ := Bool.and_eq_true_iff.1 open'
        have same := beq_iff_eq.1 same
        refine ⟨rfl, rule, span, there, same, ?_, rfl⟩
        rw [same]
        exact .uncheckedPublicWrite isPublic (requiresNothing_iff.1 none)
          (firstWriteAt?_eq_some_iff.1 first)
  · rintro ⟨rfl, rule, span, there, same, here, rfl⟩
    rw [same] at here
    cases here with
    | uncheckedPublicWrite isPublic none first =>
        simp only [functionRows, firstWriteAt?_eq_some_iff.2 first]
        rw [if_pos (Bool.and_eq_true_iff.2 ⟨isPublic, requiresNothing_iff.2 none⟩)]
        exact mem_ruleRows_iff.2 ⟨rfl, rfl, rule, there, beq_iff_eq.2 same, rfl⟩

theorem mem_rows_iff : (site, x) ∈ rows rules c ↔ site.Reports rules c x := by
  simp only [rows, List.mem_flatMap, Prod.exists, List.mem_append, mem_eventRows_iff,
    mem_functionRows_iff, List.mem_zipIdx_iff_getElem?]
  constructor
  · rintro ⟨f, position, at', ⟨rfl, rule, span, there, -, found⟩ |
      ⟨rfl, rule, span, there, -, found⟩⟩
    · exact ⟨f, rule, span, at', there, found⟩
    · exact ⟨f, rule, span, at', there, found⟩
  · rintro ⟨f, rule, span, at', there, found⟩
    refine ⟨f, site.function, at', ?_⟩
    by_cases same : rule.pattern = .uncheckedPublicWrite
    · exact .inr ⟨rfl, rule, span, there, same, found⟩
    · exact .inl ⟨rfl, rule, span, there, same, found⟩

/-! ### The rows in order -/

/-- The rows of one rule stand as their nodes are met. -/
def InScanOrder (c : Contract) (a b : Site × Finding) : Prop :=
  a.1.rule = b.1.rule → a.1.MetBefore c b.1

theorem pairwise_eventRows (at' : c.functions[position]? = some f) :
    (eventRows rules position f).Pairwise (InScanOrder c) := by
  refine List.pairwise_flatMap.2 ⟨fun _ _ => ?_, (pairwise_eventsAt f).imp ?_⟩
  · exact pairwise_ruleRows.imp fun differ same => absurd same differ
  · rintro ⟨p, event, span⟩ ⟨q, event', span'⟩ before ⟨a, x⟩ ha ⟨b, y⟩ hb _
    obtain ⟨rfl, rfl, -⟩ := mem_ruleRows_iff.1 ha
    obtain ⟨same, rfl, -⟩ := mem_ruleRows_iff.1 hb
    exact .inr ⟨same.symm, f, at', before⟩

theorem pairwise_functionRows : (functionRows rules position f).Pairwise (InScanOrder c) := by
  unfold functionRows
  split
  · exact .nil
  · split
    · exact pairwise_ruleRows.imp fun differ same => absurd same differ
    · exact .nil

theorem pairwise_rows (rules : List Rule) (c : Contract) :
    (rows rules c).Pairwise (InScanOrder c) := by
  refine List.pairwise_flatMap.2 ⟨fun (f, position) mem => ?_, (pairwise_zipIdx _).imp ?_⟩
  · refine List.pairwise_append.2 ⟨pairwise_eventRows (List.mem_zipIdx_iff_getElem?.1 mem),
      pairwise_functionRows, ?_⟩
    -- One rule has one pattern, so it has rows of one kind only.
    rintro ⟨a, x⟩ ha ⟨b, y⟩ hb same
    obtain ⟨-, rule, -, there, single, -⟩ := mem_eventRows_iff.1 ha
    obtain ⟨-, rule', -, there', whole, -⟩ := mem_functionRows_iff.1 hb
    rw [show a.rule = b.rule from same, there'] at there
    cases there
    exact absurd whole single
  · rintro ⟨f, i⟩ ⟨g, j⟩ less ⟨a, x⟩ ha ⟨b, y⟩ hb _
    have ha : a.function = i := by
      rcases List.mem_append.1 ha with mem | mem
      · exact (mem_eventRows_iff.1 mem).1
      · exact (mem_functionRows_iff.1 mem).1
    have hb : b.function = j := by
      rcases List.mem_append.1 hb with mem | mem
      · exact (mem_eventRows_iff.1 mem).1
      · exact (mem_functionRows_iff.1 mem).1
    exact .inl (by rw [ha, hb]; exact less)

theorem Site.not_metBefore_self (site : Site) : ¬site.MetBefore c site := by
  rintro (less | ⟨-, f, -, before⟩)
  · exact Nat.lt_irrefl _ less
  · exact List.lt_irrefl _ before

theorem InScanOrder.ne {a b : Site × Finding} (h : InScanOrder c a b) : a.1 ≠ b.1 := by
  intro same
  have before := h (congrArg Site.rule same)
  rw [same] at before
  exact Site.not_metBefore_self b.1 before

/-! ### The table of a contract -/

/-- The findings of a contract with their sites. -/
def table (rules : List Rule) (c : Contract) : List (Site × Finding) :=
  (rows rules c).mergeSort fun a b => ordered (rowKey a) (rowKey b)

theorem ordered_iff {a b : Nat × Finding} :
    ordered a b = true ↔ a.2.span.start < b.2.span.start ∨
      a.2.span.start = b.2.span.start ∧ a.1 ≤ b.1 := by
  simp [ordered]

theorem ordered_trans (a b d : Nat × Finding) (h : ordered a b) (h' : ordered b d) :
    ordered a d := by
  rw [ordered_iff] at *
  omega

theorem ordered_total (a b : Nat × Finding) : ordered a b || ordered b a := by
  rw [Bool.or_eq_true, ordered_iff, ordered_iff]
  omega

theorem map_table (rules : List Rule) (c : Contract) :
    (table rules c).map (·.2) = findings rules c := by
  have sorted : (table rules c).map rowKey = (unordered rules c).mergeSort ordered := by
    rw [← map_rows]
    exact List.map_mergeSort fun _ _ _ _ => rfl
  rw [findings, ← sorted, List.map_map]
  rfl

theorem nodup_table (rules : List Rule) (c : Contract) : ((table rules c).map (·.1)).Nodup := by
  have sites : ((rows rules c).map (·.1)).Nodup :=
    List.pairwise_map.2 ((pairwise_rows rules c).imp InScanOrder.ne)
  exact ((List.mergeSort_perm _ _).map _).nodup_iff.2 sites

theorem pairwise_table (rules : List Rule) (c : Contract) :
    (table rules c).Pairwise (Earlier c) := by
  have nodup : (rows rules c).Nodup :=
    (pairwise_rows rules c).imp fun inOrder same => inOrder.ne (congrArg Prod.fst same)
  refine (pairwise_mergeSort_stable
    (fun a b d => ordered_trans (rowKey a) (rowKey b) (rowKey d))
    (fun a b => ordered_total (rowKey a) (rowKey b)) nodup (pairwise_rows rules c)).imp ?_
  rintro a b ⟨before, tie⟩
  rcases ordered_iff.1 before with less | ⟨same, le⟩
  · exact .inl less
  refine .inr ⟨same, (Nat.lt_or_eq_of_le le).imp_right fun rule => ⟨rule, ?_⟩⟩
  exact tie (ordered_iff.2 (.inr ⟨same.symm, Nat.le_of_eq rule.symm⟩)) rule

end

/-- The findings of a contract are one for each site of its rules, ordered by place, then by rule,
then as the nodes of the sites are met. -/
theorem findings_are_the_sites (rules : List Rule) (c : Contract) :
    ∃ table : List (Site × Finding),
      findings rules c = table.map (·.2) ∧
      (table.map (·.1)).Nodup ∧
      (∀ site x, (site, x) ∈ table ↔ site.Reports rules c x) ∧
      table.Pairwise (Earlier c) :=
  ⟨table rules c, (map_table rules c).symm, nodup_table rules c,
    fun _ _ => List.mem_mergeSort.trans mem_rows_iff, pairwise_table rules c⟩

end Workbench.Security
