import Workbench.Source.Span

/-!
# Messages about a source text

Every stage of a compilation reports what it found as a list of `Diagnostic` values. One compilation
carries the messages of several stages side by side, so each message names its stage, how grave it
is, a stable code, a text for people and the range that it is about.
-/

namespace Workbench.Source

/-! ### Stages and severities -/

/-- The stages of a compilation, in the order in which they run. -/
inductive Stage where
  /-- Admission of the text, before it is read. -/
  | input
  | grammar
  | semantic
  | security
  | optimization
  | codegen
  deriving DecidableEq, Repr, Inhabited

namespace Stage

/-- The name of a stage in texts and in encoded results. -/
def name : Stage → String
  | input => "input"
  | grammar => "syntax"
  | semantic => "semantic"
  | security => "security"
  | optimization => "optimization"
  | codegen => "codegen"

/-- The position of a stage in the order in which stages run. -/
def rank : Stage → Nat
  | input => 0
  | grammar => 1
  | semantic => 2
  | security => 3
  | optimization => 4
  | codegen => 5

end Stage

/-- How grave a message is; only errors stop a compilation. -/
inductive Severity where
  | info
  | warning
  | error
  deriving DecidableEq, Repr, Inhabited

/-- The name of a severity in texts and in encoded results. -/
def Severity.name : Severity → String
  | info => "info"
  | warning => "warning"
  | error => "error"

/-! ### Messages -/

/-- A message of one stage about a range of the source text. -/
structure Diagnostic where
  stage : Stage
  severity : Severity
  code : String
  message : String
  span : Span
  deriving DecidableEq, Repr, Inhabited

namespace Diagnostic

/-- Whether the message stops the compilation. -/
def isError (d : Diagnostic) : Bool :=
  d.severity == .error

/-- The one-line form of a message. -/
def text (d : Diagnostic) : String :=
  s!"{d.severity.name}[{d.code}] {d.message} " ++
    s!"({d.stage.name} stage, bytes {d.span.start}..{d.span.stop})"

end Diagnostic

end Workbench.Source
