import Workbench.Lang.Builtin
import Workbench.Source.Diagnostic

/-!
# Security rules and findings

A rule is data: a pattern over the lowered form, a severity and a text. What a pattern means is said
beside the scan that looks for it.
-/

namespace Workbench.Security

open Source (Span Diagnostic Severity)
open Lang (Builtin)

/-- How grave a finding is. Critical findings stop the builds that ask for it. -/
inductive Gravity where
  | info
  | warning
  | critical
  deriving DecidableEq, Repr, Inhabited

def Gravity.name : Gravity → String
  | info => "info"
  | warning => "warning"
  | critical => "critical"

/-- A shape that a contract can have. -/
inductive Pattern where
  /-- A call of the given host operation. -/
  | calls (builtin : Builtin)
  /-- An assignment to storage behind an external call in the text of one function. -/
  | writeAfterExternalCall
  /-- A loop on the literal truth. -/
  | endlessLoop
  /-- A public function that assigns to storage and requires nothing. -/
  | uncheckedPublicWrite
  deriving DecidableEq, Repr, Inhabited

structure Rule where
  code : String
  pattern : Pattern
  gravity : Gravity
  message : String
  deriving DecidableEq, Repr, Inhabited

/-- A place where a rule applies. -/
structure Finding where
  code : String
  gravity : Gravity
  message : String
  /-- The name of the function that holds the place. -/
  function : String
  span : Span
  deriving DecidableEq, Repr, Inhabited

namespace Finding

/-- Whether a finding stops the builds that ask for it. -/
def isCritical (f : Finding) : Bool :=
  f.gravity == .critical

/-- The message about a finding; a critical one is an error if builds are to stop. -/
def diagnostic (failOnCritical : Bool) (f : Finding) : Diagnostic :=
  let severity : Severity :=
    match f.gravity with
    | .info => .info
    | .warning => .warning
    | .critical => if failOnCritical then .error else .warning
  let mark := if f.isCritical then "critical: " else ""
  ⟨.security, severity, f.code, mark ++ s!"{f.message} (in `{f.function}`)", f.span⟩

end Finding

/-- The rules that hold unless others are given. -/
def defaultRules : List Rule :=
  [⟨"S001", .calls .selfDestruct, .critical, "selfdestruct permanently destroys the contract"⟩,
    ⟨"S002", .calls .delegateCall, .critical,
      "delegatecall executes foreign code against this contract's storage"⟩,
    ⟨"S003", .calls .txOrigin, .critical, "tx_origin must not be used for authorization"⟩,
    ⟨"S004", .writeAfterExternalCall, .warning,
      "storage is written after an external call (reentrancy)"⟩,
    ⟨"S005", .endlessLoop, .warning, "unbounded loop may exhaust gas"⟩,
    ⟨"S006", .calls .ecrecover, .warning,
      "ecrecover relies on a signature scheme that is not quantum-safe"⟩,
    ⟨"S007", .uncheckedPublicWrite, .warning,
      "public function modifies storage without any require check"⟩,
    ⟨"S008", .calls .timestamp, .info, "block timestamp can be influenced by validators"⟩]

end Workbench.Security
