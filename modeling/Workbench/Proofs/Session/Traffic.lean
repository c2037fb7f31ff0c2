import Workbench.Proofs.Session.Interleaving
import Workbench.Session.Coordinator

/-!
# Calls in progress

Any number of clients call a coordinator at the same time, and every call goes on at its own pace.
A step is what a call does without interruption: it begins its activity, looks at files, installs a
handle, passes a checkpoint, gives its guard back. `Traffic` is a session together with the points
that all calls have reached, and a `Traffic.Run` takes the steps of the calls in any order.

What files hold, how a process ends and how much time goes by is decided outside of the session, so
the steps allow every answer.
-/

namespace Workbench.Session

open Pipeline (Checkpoint Compiler Refusal Result)
open Files (Place)

/-! ### Calls -/

/-- What the outside asks of a coordinator. -/
inductive Call where
  | serve (request : Request)
  | shutdown
  deriving DecidableEq, Repr

namespace Request

def activity? : Request → Option Activity
  | .compile _ => some .compile
  | .run _ => some .run
  | .debug _ => some .debug
  | .terminal .. => some .terminal
  | _ => none

/-- The file that is the active one from the begin of the activity on. -/
def activeFile? : Request → Option String
  | .compile params => some params.filePath
  | .run params | .debug params => some params.filePath
  | _ => none

/-- The command that a request runs on a file, with the parameters. -/
def launch? (settings : Settings) : Request → Option (Activity × Command × RunParams)
  | .run params => some (.run, settings.runCommand, params)
  | .debug params => some (.debug, settings.debugCommand, params)
  | _ => none

/-- Whether a request is about files alone. -/
def isOnFiles (r : Request) : Bool :=
  r.activity?.isNone && r != .terminate

end Request

/-! ### Work -/

/-- What an activity does once it has looked at its files. -/
inductive Job where
  | compile (params : CompileParams) (source : String)
  | process (activity : Activity) (spawn : Spawn)

def CompileParams.request (params : CompileParams) (source : String) : Pipeline.Request :=
  ⟨source, params.mode, params.optimizationLevel, params.quantumSafety, params.gasOptimization⟩

def Settings.timeoutFor (s : Settings) : Option Nat → Nat
  | some ms => if 0 < ms then ms else s.processTimeout
  | none => s.processTimeout

/-- A place below a root, as messages and commands show it. -/
def shownAt (root : String) (place : Place) : String :=
  if place = [] then root else Files.joinText root place.text

def Spawn.launch (settings : Settings) (root : String) (command : Command) (params : RunParams)
    (place : Place) : Spawn :=
  ⟨command.program, command.argsFor (shownAt root place) ++ params.args, root,
    settings.timeoutFor params.timeout⟩

def Spawn.terminal (settings : Settings) (root command : String) (timeout : Option Nat) : Spawn :=
  ⟨settings.shell.program, settings.shell.args ++ [command], root, settings.timeoutFor timeout⟩

/-- What an activity can find when it looks at its files. -/
inductive Prepares (settings : Settings) (root : String) : Request → Except Failure Job → Prop
  | loaded (params : CompileParams) (source : String) :
      Prepares settings root (.compile params) (.ok (.compile params source))
  | unreadable (params : CompileParams) (failure : Failure) :
      Prepares settings root (.compile params) (.error failure)
  | found {request : Request} {activity : Activity} {command : Command} {params : RunParams}
      {place : Place} :
      request.launch? settings = some (activity, command, params) →
      Files.confine? params.filePath = some place →
      Prepares settings root request
        (.ok (.process activity (.launch settings root command params place)))
  | misplaced {request : Request} {activity : Activity} {command : Command} {params : RunParams} :
      request.launch? settings = some (activity, command, params) →
      Files.confine? params.filePath = none →
      Prepares settings root request (.error (.badPath params.filePath))
  | missing {request : Request} {activity : Activity} {command : Command} {params : RunParams}
      {place : Place} :
      request.launch? settings = some (activity, command, params) →
      Files.confine? params.filePath = some place →
      Prepares settings root request (.error (.notFound params.filePath))
  | terminal (command : String) (timeout : Option Nat) :
      Prepares settings root (.terminal command timeout)
        (.ok (.process .terminal (.terminal settings root command timeout)))

/-- The checkpoints of a compilation, in order. -/
def checkpoints : List Checkpoint :=
  [.grammar, .semantic, .security, .optimization, .codegen, .sealed]

/-- The checkpoints that a job has to pass. -/
def Job.checkpoints : Job → List Checkpoint
  | .compile .. => Session.checkpoints
  | .process .. => []

/-! ### Points of a call -/

inductive Phase where
  | called
  /-- The activity has begun and looks at its files. -/
  | preparing (ticket : Ticket)
  | prepared (ticket : Ticket) (job : Job)
  /-- The handle is installed. A compilation has checkpoints ahead and has noticed its cancellation
  at others; it is late once it has taken too long. -/
  | working (ticket : Ticket) (job : Job) (ahead noticed : List Checkpoint) (late : Bool)
  | storing (ticket : Ticket) (params : CompileParams) (result : Result)
  /-- The answer is known, and the guard is about to be given back. -/
  | leaving (ticket : Ticket) (body : EventBody)
  /-- A request on files alone is under way. -/
  | browsing
  /-- The end of the session has stopped what the session was busy with. -/
  | halfway (outcome : TerminateOutcome)
  | returned (body : EventBody)

namespace Phase

/-- The ticket of the guard that a call holds. -/
def ticket? : Phase → Option Ticket
  | .preparing t | .prepared t _ | .working t .. | .storing t .. | .leaving t _ => some t
  | _ => none

/-- Where a compilation goes with its outcome. One that took too long gives no result. -/
def concluded (settings : Settings) (ticket : Ticket) (params : CompileParams) (late : Bool)
    (outcome : Except Failure Result) : Phase :=
  if late then .leaving ticket (.failed (.compileTimeout settings.compileTimeout))
  else
    match outcome with
    | .error failure => .leaving ticket (.failed failure)
    | .ok result =>
        if result.success && params.mode.isStored then .storing ticket params result
        else .leaving ticket (.compileResult ⟨params.filePath, result, none, 0⟩)

end Phase

/-- The answer of a compilation whose result was to be stored. -/
def storedBody (params : CompileParams) (result : Result) : Except Failure Artifacts → EventBody
  | .ok artifacts => .compileResult ⟨params.filePath, result, some artifacts, 0⟩
  | .error failure => .failed failure

/-- The outcome of a compilation that noticed its cancellation at some checkpoints. -/
def CompileParams.outcome (params : CompileParams) (pipeline : Compiler) (source : String)
    (noticed : List Checkpoint) : Except Failure Result :=
  (pipeline.compile (params.request source) fun c => decide (c ∈ noticed)).1.mapError .refused

/-! ### Traffic -/

/-- A guard and the call that holds it. -/
structure Lease extends Guard where
  call : Nat
  deriving DecidableEq, Repr

structure Traffic where
  settings : Settings
  root : String
  session : Occupation
  begun : Nat
  leases : List Lease
  signalled : List Ticket
  /-- The point that each call has reached. -/
  phase : Nat → Phase

namespace Traffic

def opened (settings : Settings) (root : String) : Traffic :=
  ⟨settings, root, .opened, 0, [], [], fun _ => .called⟩

def goto (w : Traffic) (k : Nat) (p : Phase) : Traffic :=
  { w with phase := fun j => if j = k then p else w.phase j }

/-- Stops what the session is busy with. -/
def stopped (w : Traffic) : Traffic :=
  { w with
    session := w.session.terminateCurrent.1
    signalled := w.session.terminateCurrent.2.1.tickets ++ w.signalled }

/-- Begins the activity of a call. -/
def beginning (w : Traffic) (k : Nat) (activity : Activity) (session : Occupation) : Traffic :=
  { w.goto k (.preparing (w.begun + 1)) with
    session := session
    begun := w.begun + 1
    leases := ⟨⟨w.begun + 1, activity⟩, k⟩ :: w.leases }

/-- Installs the handle of a call. -/
def arming (w : Traffic) (k : Nat) (g : Guard) (job : Job) : Traffic :=
  { w.goto k (.working g.ticket job job.checkpoints [] false) with
    session := (w.session.install g).1
    signalled := if (w.session.install g).2 then g.ticket :: w.signalled else w.signalled }

/-- Gives the guard of a call back. -/
def leaving (w : Traffic) (k : Nat) (body : EventBody) : Traffic :=
  { w.goto k (.returned body) with
    session := w.session.finish
    leases := w.leases.filter fun l => l.call ≠ k }

section

variable (w : Traffic) (k : Nat) (p : Phase)

@[simp] theorem phase_goto_self : (w.goto k p).phase k = p := by simp [goto]

theorem phase_goto_of_ne {j : Nat} (h : j ≠ k) : (w.goto k p).phase j = w.phase j := by
  simp [goto, h]

@[simp] theorem session_goto : (w.goto k p).session = w.session := rfl
@[simp] theorem begun_goto : (w.goto k p).begun = w.begun := rfl
@[simp] theorem signalled_goto : (w.goto k p).signalled = w.signalled := rfl

@[simp] theorem phase_stopped : w.stopped.phase = w.phase := rfl
@[simp] theorem state_stopped : w.stopped.session.state = w.session.state := rfl

@[simp] theorem phase_beginning (activity : Activity) (session : Occupation) :
    (w.beginning k activity session).phase = (w.goto k (.preparing (w.begun + 1))).phase := rfl

@[simp] theorem phase_arming (g : Guard) (job : Job) : (w.arming k g job).phase =
    (w.goto k (.working g.ticket job job.checkpoints [] false)).phase := rfl

@[simp] theorem phase_leaving (body : EventBody) :
    (w.leaving k body).phase = (w.goto k (.returned body)).phase := rfl

end

/-! ### Steps -/

/-- What a step of a call is. -/
inductive Move where
  | begin
  | prepare
  | arm
  /-- A compilation passes its next checkpoint. -/
  | check
  /-- A compilation that takes too long is cancelled by its own call. -/
  | expire
  /-- The compilation or the process comes to its end. -/
  | conclude
  | store
  | leave
  | browse
  | terminate
  /-- The end of the session stops what the session is busy with, … -/
  | stop
  /-- … and then, in a step of its own, ends it. -/
  | close
  deriving DecidableEq, Repr

structure Step where
  call : Nat
  move : Move
  deriving DecidableEq, Repr

variable (calls : Nat → Call)

/-- The steps that the calls can take, and the traffic after each. -/
inductive Takes (w : Traffic) : Step → Traffic → Prop
  | refuse {k : Nat} {r : Request} {activity : Activity} {failure : Failure} :
      calls k = .serve r → w.phase k = .called → r.activity? = some activity →
      w.session.begin? activity r.activeFile? = .error failure →
      Takes w ⟨k, .begin⟩ (w.goto k (.returned (.failed failure)))
  | begin {k : Nat} {r : Request} {activity : Activity} {session : Occupation} :
      calls k = .serve r → w.phase k = .called → r.activity? = some activity →
      w.session.begin? activity r.activeFile? = .ok session →
      Takes w ⟨k, .begin⟩ (w.beginning k activity session)
  | prepare {k : Nat} {r : Request} {t : Ticket} {job : Job} :
      calls k = .serve r → w.phase k = .preparing t → Prepares w.settings w.root r (.ok job) →
      Takes w ⟨k, .prepare⟩ (w.goto k (.prepared t job))
  | giveUp {k : Nat} {r : Request} {t : Ticket} {failure : Failure} :
      calls k = .serve r → w.phase k = .preparing t →
      Prepares w.settings w.root r (.error failure) →
      Takes w ⟨k, .prepare⟩ (w.goto k (.leaving t (.failed failure)))
  | arm {k : Nat} {r : Request} {t : Ticket} {activity : Activity} {job : Job} :
      calls k = .serve r → r.activity? = some activity → w.phase k = .prepared t job →
      Takes w ⟨k, .arm⟩ (w.arming k ⟨t, activity⟩ job)
  | check {k : Nat} {t : Ticket} {job : Job} {c : Checkpoint} {ahead noticed : List Checkpoint}
      {late : Bool} :
      w.phase k = .working t job (c :: ahead) noticed late →
      Takes w ⟨k, .check⟩
        (w.goto k (.working t job ahead (if t ∈ w.signalled then c :: noticed else noticed) late))
  | expire {k : Nat} {t : Ticket} {params : CompileParams} {source : String}
      {ahead noticed : List Checkpoint} :
      w.phase k = .working t (.compile params source) ahead noticed false →
      Takes w ⟨k, .expire⟩
        { w.goto k (.working t (.compile params source) ahead noticed true) with
          signalled := t :: w.signalled }
  /-- The compilation runs with the settings that the pipeline had when it started. -/
  | conclude {k : Nat} {t : Ticket} {params : CompileParams} {source : String}
      {noticed : List Checkpoint} {late : Bool} (pipeline : Compiler) :
      w.phase k = .working t (.compile params source) [] noticed late →
      Takes w ⟨k, .conclude⟩
        (w.goto k (.concluded w.settings t params late (params.outcome pipeline source noticed)))
  | crash {k : Nat} {t : Ticket} {params : CompileParams} {source : String}
      {ahead noticed : List Checkpoint} {late : Bool} (reason : String) :
      w.phase k = .working t (.compile params source) ahead noticed late →
      Takes w ⟨k, .conclude⟩
        (w.goto k (.concluded w.settings t params late (.error (.worker reason))))
  | exit {k : Nat} {t : Ticket} {activity : Activity} {spawn : Spawn}
      {ahead noticed : List Checkpoint} {late : Bool} (outcome : Except Failure ProcessOutput) :
      w.phase k = .working t (.process activity spawn) ahead noticed late →
      Takes w ⟨k, .conclude⟩ (w.goto k (.leaving t (Coordinator.processEvent activity outcome)))
  | store {k : Nat} {t : Ticket} {params : CompileParams} {result : Result}
      (answer : Except Failure Artifacts) :
      w.phase k = .storing t params result →
      Takes w ⟨k, .store⟩ (w.goto k (.leaving t (storedBody params result answer)))
  | leave {k : Nat} {t : Ticket} {body : EventBody} :
      w.phase k = .leaving t body → Takes w ⟨k, .leave⟩ (w.leaving k body)
  | bar {k : Nat} {r : Request} :
      calls k = .serve r → w.phase k = .called → r.isOnFiles → w.session.state = .terminated →
      Takes w ⟨k, .begin⟩ (w.goto k (.returned (.failed .terminated)))
  | pass {k : Nat} {r : Request} :
      calls k = .serve r → w.phase k = .called → r.isOnFiles → w.session.state ≠ .terminated →
      Takes w ⟨k, .begin⟩ (w.goto k .browsing)
  | browse {k : Nat} (body : EventBody) :
      w.phase k = .browsing → Takes w ⟨k, .browse⟩ (w.goto k (.returned body))
  | terminate {k : Nat} :
      calls k = .serve .terminate → w.phase k = .called →
      Takes w ⟨k, .terminate⟩
        (w.stopped.goto k (.returned (.terminateResult w.session.terminateCurrent.2.2)))
  | stop {k : Nat} :
      calls k = .shutdown → w.phase k = .called →
      Takes w ⟨k, .stop⟩ (w.stopped.goto k (.halfway w.session.terminateCurrent.2.2))
  | close {k : Nat} {outcome : TerminateOutcome} :
      w.phase k = .halfway outcome →
      Takes w ⟨k, .close⟩
        { w.goto k (.returned (.terminateResult { outcome with state := .terminated })) with
          session := w.session.close }

/-- What steps in some order lead to, the last step at the end. -/
inductive Leads (w : Traffic) : List Step → Traffic → Prop
  | refl : Leads w [] w
  | snoc {steps : List Step} {s : Step} {w₁ w₂ : Traffic} :
      Leads w steps w₁ → Takes calls w₁ s w₂ → Leads w (steps ++ [s]) w₂

/-- What the calls of a session can come to, from its opening on. -/
def Run (trace : List Step) (w : Traffic) : Prop :=
  ∃ settings root, Leads calls (opened settings root) trace w

/-- Whether the session has been ended. -/
def Ended (trace : List Step) : Prop :=
  ∃ s ∈ trace, s.move = .close

variable {calls}

theorem Leads.trans {w w₁ w₂ : Traffic} {steps more : List Step} (first : Leads calls w steps w₁)
    (second : Leads calls w₁ more w₂) : Leads calls w (steps ++ more) w₂ := by
  induction second with
  | refl => simpa using first
  | snoc _ takes ih =>
      rw [← List.append_assoc]
      exact ih.snoc takes

theorem Leads.single {w w' : Traffic} {s : Step} (h : Takes calls w s w') :
    Leads calls w [s] w' :=
  Leads.refl.snoc h

/-- Induction over the steps of a run. -/
theorem Run.induction {motive : List Step → Traffic → Prop}
    (opened : ∀ settings root, motive [] (opened settings root))
    (step : ∀ {trace w s w'}, Run calls trace w → motive trace w → Takes calls w s w' →
      motive (trace ++ [s]) w')
    {trace : List Step} {w : Traffic} (run : Run calls trace w) : motive trace w := by
  obtain ⟨settings, root, leads⟩ := run
  induction leads with
  | refl => exact opened settings root
  | snoc leads takes ih => exact step ⟨settings, root, leads⟩ ih takes

theorem ended_append_singleton {trace : List Step} {s : Step} :
    Ended (trace ++ [s]) ↔ Ended trace ∨ s.move = .close := by
  simp [Ended, or_and_right, exists_or]

end Traffic

end Workbench.Session
