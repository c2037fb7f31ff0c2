import Workbench.Sandbox.Capture
import Workbench.Session.Event

/-!
# The sandbox

A process is left alone until it ends, until its time is over or until it is told to end. Only in
the first case its output counts. The course of a process is what it would do if it were left alone
for good.
-/

namespace Workbench.Sandbox

open Files (Fault)
open Session (Failure ProcessOutput)

/-- How a process ends by itself. -/
inductive Status where
  | exited (code : Nat)
  | signalled
  deriving DecidableEq, Repr, Inhabited

/-- What a process does if it is left alone. -/
structure Course where
  stdout : Delivery
  stderr : Delivery
  /-- How long it runs, in milliseconds; none if it never ends. -/
  lasts? : Option Nat
  status : Status
  deriving Repr, Inhabited

/-- The signal that tells a process to end. -/
inductive Kill where
  /-- Someone holds it and has not given it. -/
  | held
  | given
  /-- Nobody can give it any more. -/
  | dropped
  deriving DecidableEq, Repr, Inhabited

/-- The exit code of a process; none if a signal ended it. -/
def Status.code? : Status → Option Int
  | exited code => some code
  | signalled => none

/-- What a process leaves that ended by itself. -/
def Course.output (course : Course) (outputLimit duration : Nat) : ProcessOutput :=
  let out := capture outputLimit course.stdout
  let err := capture outputLimit course.stderr
  { exitCode := course.status.code?
    stdout := out.text.1
    stderr := err.text.1
    stdoutTruncated := out.truncated
    stderrTruncated := err.truncated
    stdoutLossy := out.text.2
    stderrLossy := err.text.2
    duration := duration }

/-- Runs a program: with its course if it starts, or the fault that kept it from starting. -/
def run (outputLimit : Nat) (program : String) (timeout : Nat) (kill : Kill)
    (start : Except Fault Course) : Except Failure ProcessOutput :=
  match start with
  | .error fault => .error (.spawn program fault)
  | .ok course =>
      match kill, course.lasts? with
      | .given, _ => .error (.killed program)
      | _, none => .error (.timeout program timeout)
      | _, some duration =>
          if duration < timeout then .ok (course.output outputLimit duration)
          else .error (.timeout program timeout)

end Workbench.Sandbox
