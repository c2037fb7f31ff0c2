import Workbench.Lowered.Basic
import Workbench.Security.Rule

/-!
# Looking for security rules

A function is read once into the list of its events, in the order of its text. Every pattern is then
a question about that list. The findings of a contract are ordered by place and, at one place, by
the order of the rules.
-/

namespace Workbench.Security

open Source (Span)
open Lang (Builtin)
open Lowered (Expr Stmt Function Contract)

/-! ### Events -/

/-- What a pattern can ask about. -/
inductive Event where
  | calls (builtin : Builtin)
  | writesStorage
  | loopsEndlessly
  | requires
  deriving DecidableEq, Repr

/-- The host operation that an expression calls, with its place. -/
def Event.ofNode? : Expr → Option (Event × Span)
  | .builtin kind _ span => some (.calls kind, span)
  | _ => none

/-- The events of an expression, in the order of evaluation. -/
def exprEvents (e : Expr) : List (Event × Span) :=
  e.nodes.filterMap Event.ofNode?

mutual

def stmtEvents : Stmt → List (Event × Span)
  | .letIn _ value _ | .set _ value _ | .eval value _ => exprEvents value
  | .store _ value span => exprEvents value ++ [(.writesStorage, span)]
  | .returns (some value) _ => exprEvents value
  | .returns none _ => []
  | .require cond span => (.requires, span) :: exprEvents cond
  | .ifThen cond yes no _ => exprEvents cond ++ blockEvents yes ++ blockEvents no
  | .whileDo cond body span =>
      (if cond.isTrue then [(.loopsEndlessly, span)] else []) ++ exprEvents cond ++ blockEvents body

def blockEvents : List Stmt → List (Event × Span)
  | [] => []
  | s :: rest => stmtEvents s ++ blockEvents rest

end

/-- Whether an event is a call that leaves the contract. -/
def Event.isExternalCall : Event → Bool
  | .calls builtin => builtin.isExternalCall
  | _ => false

/-- Each event with whether an external call stands before it; `seen` says so of the first. -/
def markExternal (seen : Bool) : List (Event × Span) → List (Event × Span × Bool)
  | [] => []
  | (event, span) :: rest => (event, span, seen) :: markExternal (seen || event.isExternalCall) rest

/-! ### Findings -/

/-- Whether an event is a match of a pattern, by itself and what stands before it. -/
def Pattern.hits (pattern : Pattern) (event : Event) (afterExternal : Bool) : Bool :=
  match pattern, event with
  | .calls builtin, .calls called => builtin == called
  | .writeAfterExternalCall, .writesStorage => afterExternal
  | .endlessLoop, .loopsEndlessly => true
  | _, _ => false

def Rule.finding (rule : Rule) (function : String) (span : Span) : Finding :=
  ⟨rule.code, rule.gravity, rule.message, function, span⟩

/-- The rules with their positions. -/
abbrev IndexedRules := List (Rule × Nat)

/-- The findings at single events, each with the position of its rule. -/
def eventFindings (rules : IndexedRules) (function : String) (events : List (Event × Span)) :
    List (Nat × Finding) :=
  (markExternal false events).flatMap fun (event, span, afterExternal) =>
    rules.filterMap fun (rule, index) =>
      if rule.pattern.hits event afterExternal then some (index, rule.finding function span)
      else none

/-- The place of the first assignment to storage. -/
def firstWrite? (events : List (Event × Span)) : Option Span :=
  (events.find? fun (event, _) => event == .writesStorage).map (·.2)

/-- The findings about a function as a whole. -/
def functionFindings (rules : IndexedRules) (f : Function) (events : List (Event × Span)) :
    List (Nat × Finding) :=
  match firstWrite? events with
  | none => []
  | some span =>
      if f.isPublic && !events.any (fun (event, _) => event == .requires) then
        rules.filterMap fun (rule, index) =>
          if rule.pattern == .uncheckedPublicWrite then some (index, rule.finding f.name span)
          else none
      else []

/-- The findings of a contract in the order in which they were met. -/
def unordered (rules : List Rule) (contract : Contract) : List (Nat × Finding) :=
  contract.functions.flatMap fun f =>
    let events := blockEvents f.body
    eventFindings rules.zipIdx f.name events ++ functionFindings rules.zipIdx f events

/-- The order of findings: by place, then by rule. -/
def ordered (a b : Nat × Finding) : Bool :=
  a.2.span.start < b.2.span.start ||
    (a.2.span.start == b.2.span.start && decide (a.1 ≤ b.1))

/-- The findings of a contract, ordered; ties keep the order in which they were met. -/
def findings (rules : List Rule) (contract : Contract) : List Finding :=
  ((unordered rules contract).mergeSort ordered).map (·.2)

end Workbench.Security
