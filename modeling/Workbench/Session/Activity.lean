import Workbench.Session.Event

/-!
# Activities of a session

A session is busy with at most one activity: a compilation, a process, or nothing. An activity
begins, installs the handle by which it can be stopped, and finishes; requests to terminate and the
end of the session come from elsewhere, at any moment between these. Each function here is one step
that nothing can interrupt, and the end of a session is made of two such steps.

An activity is known by a ticket. To stop one is to signal its ticket; the steps say which tickets
they signal.
-/

namespace Workbench.Session

/-! ### Activities -/

inductive Activity where
  | compile
  | run
  | debug
  /-- The command of a terminal; it keeps a session busy like a run. -/
  | terminal
  deriving DecidableEq, Repr, Inhabited

/-- What a session with the activity is doing. -/
def Activity.state : Activity → State
  | compile => .compiling
  | run | terminal => .running
  | debug => .debugging

/-- The number of an activity. -/
abbrev Ticket := Nat

/-! ### What a session is occupied with -/

structure Occupation where
  state : State
  /-- The file of the last compilation, run or debugging that began. -/
  activeFile : Option String
  /-- The compilation that can be cancelled. -/
  cancellation : Option Ticket
  /-- The process that can be killed. -/
  kill : Option Ticket
  deriving DecidableEq, Repr, Inhabited

namespace Occupation

/-- A session that is doing nothing. -/
def opened : Occupation := ⟨.idle, none, none, none⟩

/-- Begins an activity, perhaps on a file. Only an idle session can. -/
def begin? (s : Occupation) (activity : Activity) (file : Option String) :
    Except Failure Occupation :=
  match s.state with
  | .idle => .ok { s with state := activity.state, activeFile := file <|> s.activeFile }
  | .terminated => .error .terminated
  | busy => .error (.busy busy)

/-- Installs the handle of a compilation. The result tells whether it is cancelled at once. -/
def installCancellation (s : Occupation) (ticket : Ticket) : Occupation × Bool :=
  ({ s with cancellation := some ticket }, s.state == .terminated)

/-- Installs the handle of a process. The result tells whether it is killed at once. -/
def installKill (s : Occupation) (ticket : Ticket) : Occupation × Bool :=
  if s.state = .terminated then (s, true) else ({ s with kill := some ticket }, false)

def finish (s : Occupation) : Occupation :=
  { s with
    state := if s.state = .terminated then .terminated else .idle
    cancellation := none
    kill := none }

/-- The tickets that a step signals. -/
structure Signals where
  cancelled : Option Ticket
  killed : Option Ticket
  deriving DecidableEq, Repr, Inhabited

/-- Stops what the session is busy with, as far as handles are installed. A process can be killed
once; a compilation stays cancelled, and another request finds it so again. -/
def terminateCurrent (s : Occupation) : Occupation × Signals × TerminateOutcome :=
  ({ s with kill := none }, ⟨s.cancellation, s.kill⟩,
    ⟨s.state, s.cancellation.isSome, s.kill.isSome⟩)

def close (s : Occupation) : Occupation :=
  { s with state := .terminated }

/-- Stops what the session is busy with and ends it. -/
def shutdown (s : Occupation) : Occupation × Signals × TerminateOutcome :=
  let (s, signals, outcome) := s.terminateCurrent
  (s.close, signals, { outcome with state := .terminated })

theorem state_finish_of_terminated {s : Occupation} (h : s.state = .terminated) :
    s.finish.state = .terminated := by
  simp [finish, h]

theorem state_close (s : Occupation) : s.close.state = .terminated := rfl

end Occupation

end Workbench.Session
