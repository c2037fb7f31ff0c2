import Workbench.Files.Fault
import Workbench.Pipeline.Result

/-!
# Failures of a session

Every request that cannot be served gets a failure for an answer. A failure is a cause with the data
that its wording needs; clients can tell failures apart by their kind and by the part of the session
that they come from.
-/

namespace Workbench.Session

open Files (Fault)
open Pipeline (Refusal Result)
open Source (Stage)

/-! ### States -/

/-- What a session is doing. -/
inductive State where
  | idle
  | compiling
  | running
  | debugging
  /-- The end; nothing follows it. -/
  | terminated
  deriving DecidableEq, Repr, Inhabited

/-- The name of a state in texts and in encoded answers. -/
def State.name : State → String
  | idle => "idle"
  | compiling => "compiling"
  | running => "running"
  | debugging => "debugging"
  | terminated => "terminated"

/-! ### Durations -/

/-- The digits of a fraction of thousandths, without zeros at the end. -/
def thousandths (n : Nat) : String :=
  let digits := [n / 100 % 10, n / 10 % 10, n % 10].map Nat.digitChar
  String.ofList (digits.reverse.dropWhile (· == '0')).reverse

/-- A duration in milliseconds as people write it: in the largest unit that keeps it above one. -/
def durationText (milliseconds : Nat) : String :=
  if milliseconds = 0 then "0ns"
  else if milliseconds < 1000 then s!"{milliseconds}ms"
  else
    let fraction := thousandths (milliseconds % 1000)
    if fraction.isEmpty then s!"{milliseconds / 1000}s" else s!"{milliseconds / 1000}.{fraction}s"

/-! ### Failures -/

inductive Failure where
  | fileTooLarge (path : String) (size limit : Nat)
  /-- A path that leads out of the project, or nowhere. -/
  | badPath (path : String)
  | notFound (path : String)
  | alreadyExists (path : String)
  /-- A write that is based on another version than the current one. -/
  | conflict (path : String) (expected actual : Nat)
  | io (path : String) (fault : Fault)
  | busy (state : State)
  | queueFull
  | terminated
  | timeout (program : String) (milliseconds : Nat)
  | compileTimeout (milliseconds : Nat)
  /-- A program that did not start. -/
  | spawn (program : String) (fault : Fault)
  | process (program message : String)
  | killed (program : String)
  | malformed (reason : String)
  | badConfig (reason : String)
  | worker (reason : String)
  | refused (refusal : Refusal)
  deriving DecidableEq, Repr, Inhabited

/-- What kind of failure it is, for clients. -/
inductive FailureKind where
  | resource
  | grammar
  | semantic
  | security
  | timeout
  | process
  | busy
  | io
  | protocol
  | conflict
  | notFound
  | cancelled
  | terminated
  | config
  | internal
  deriving DecidableEq, Repr, Inhabited

/-- The name of a kind in encoded answers. -/
def FailureKind.name : FailureKind → String
  | resource => "resource"
  | grammar => "syntax"
  | semantic => "semantic"
  | security => "security"
  | timeout => "timeout"
  | process => "process"
  | busy => "busy"
  | io => "io"
  | protocol => "protocol"
  | conflict => "conflict"
  | notFound => "notFound"
  | cancelled => "cancelled"
  | terminated => "terminated"
  | config => "config"
  | internal => "internal"

/-- The part of a session that a failure comes from. -/
inductive Origin where
  | protocol
  | session
  | files
  | compile
  | process
  deriving DecidableEq, Repr, Inhabited

/-- The name of a part in encoded answers. -/
def Origin.name : Origin → String
  | protocol => "protocol"
  | session => "session"
  | files => "files"
  | compile => "compile"
  | process => "process"

namespace Failure

def message : Failure → String
  | fileTooLarge path size limit => s!"{path} is {size} bytes, exceeding the {limit} byte limit"
  | badPath path => s!"path `{path}` must be relative to the project and must not contain `..`"
  | notFound path => s!"{path} not found"
  | alreadyExists path => s!"{path} already exists"
  | conflict path expected actual =>
      s!"stale write to {path}: based on version {expected}, current version is {actual}"
  | io path fault => s!"I/O error on {path}: {fault.text}"
  | busy state => s!"session is busy ({state.name})"
  | queueFull => "request queue is full"
  | terminated => "session has been terminated"
  | timeout program ms => s!"`{program}` did not finish within {durationText ms}"
  | compileTimeout ms => s!"compilation did not finish within {durationText ms}"
  | spawn program fault => s!"failed to start `{program}`: {fault.text}"
  | process program message => s!"process `{program}` failed: {message}"
  | killed program => s!"`{program}` was terminated on request"
  | malformed reason => s!"malformed message: {reason}"
  | badConfig reason => s!"invalid configuration: {reason}"
  | worker reason => s!"compiler worker failed: {reason}"
  | refused refusal => refusal.message

/-- The wording of a failure and of the fault behind it, outermost first. -/
def chain (failure : Failure) : List String :=
  match failure with
  | io _ fault | spawn _ fault => [failure.message, fault.text]
  | _ => [failure.message]

def kind : Failure → FailureKind
  | fileTooLarge .. | queueFull => .resource
  | badPath _ | malformed _ => .protocol
  | notFound _ => .notFound
  | alreadyExists _ | conflict .. => .conflict
  | io .. => .io
  | busy _ => .busy
  | terminated => .terminated
  | timeout .. | compileTimeout _ => .timeout
  | spawn .. | process .. => .process
  | killed _ => .cancelled
  | badConfig _ => .config
  | worker _ => .internal
  | refused (.unreadableProject ..) => .io
  | refused _ => .config

/-- Where a failure comes from. -/
def origin : Failure → Origin
  | fileTooLarge .. | badPath _ | notFound _ | alreadyExists _ | conflict .. | io .. => .files
  | busy _ | terminated | badConfig _ => .session
  | queueFull | malformed _ => .protocol
  | compileTimeout _ | worker _ | refused _ => .compile
  | timeout .. | spawn .. | process .. | killed _ => .process

end Failure

/-! ### Failed compilations -/

def FailureKind.ofStage : Stage → FailureKind
  | .input => resource
  | .grammar => grammar
  | .semantic => semantic
  | .security => security
  | .optimization | .codegen => internal

/-- Why a compilation has no artifact; none if it has one. -/
def failureKind? (r : Result) : Option FailureKind :=
  if r.success then none
  else if r.wasCancelled then some .cancelled
  else some ((r.failedStage?.map FailureKind.ofStage).getD .internal)

end Workbench.Session
