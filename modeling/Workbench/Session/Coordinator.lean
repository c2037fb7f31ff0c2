import Workbench.Pipeline.Compile
import Workbench.Session.Activity
import Workbench.Session.Loader
import Workbench.Session.Request
import Workbench.Session.Settings

/-!
# Serving requests

The coordinator serves one request after another on the files, the pipeline and the session.
Requests on files are answered at once. A process, and a compilation whose module waits for its
seal, are `Pending`: their session stays busy until what they wait for has come, and only then they
are answered.
-/

namespace Workbench.Session

open Files (Fault Place Disk)
open Pipeline (Draft Compiler Result)

/-! ### What waits -/

/-- A program to start. -/
structure Spawn where
  program : String
  args : List String
  cwd : String
  timeout : Nat
  deriving DecidableEq, Repr, Inhabited

/-- A compilation that waits for the seal of its module. -/
structure Sealing where
  params : CompileParams
  draft : Draft
  cancelled : Bool
  /-- How long it has been waiting, in milliseconds. -/
  waited : Nat

/-- Work that waits for something outside. -/
inductive Pending where
  | process (activity : Activity) (spawn : Spawn)
  | sealing (compilation : Sealing)

/-- An answer, or the work that has to come before it. -/
inductive Progress where
  | answered (body : EventBody)
  | pending (work : Pending)

structure Coordinator where
  settings : Settings
  session : Occupation
  store : Store
  pipeline : Compiler
  /-- Whether sealing waits for a release. -/
  holdsSeals : Bool
  /-- How many activities there have been. -/
  begun : Nat
  /-- The programs started so far. -/
  spawned : List Spawn

namespace Coordinator

/-- A coordinator on the files of a project. -/
def opened (settings : Settings) (pipeline : Compiler) (store : Store) (holdsSeals : Bool) :
    Coordinator :=
  ⟨settings, .opened, store, pipeline, holdsSeals, 0, []⟩

/-! ### Files -/

/-- Does something to the files. -/
def perform {α : Type} (c : Coordinator) (act : Action α) : Except Failure α × Coordinator :=
  let (answer, store) := act c.store
  (answer, { c with store := store })

/-- The event of an answer. -/
def eventOf {α : Type} (body : α → EventBody) : Except Failure α → EventBody
  | .ok a => body a
  | .error failure => .failed failure

/-- Answers a request on files, as long as the session has not ended. -/
def onFiles {α : Type} (c : Coordinator) (act : Action α) (body : α → EventBody) :
    Progress × Coordinator :=
  if c.session.state = .terminated then (.answered (.failed .terminated), c)
  else
    let (answer, c) := c.perform act
    (.answered (eventOf body answer), c)

/-- Finishes the activity with an answer. -/
def finishWith (c : Coordinator) (body : EventBody) : Progress × Coordinator :=
  (.answered body, { c with session := c.session.finish })

/-- Begins an activity; the failure of one that cannot begin is its answer. -/
def beginThen (c : Coordinator) (activity : Activity) (file : Option String)
    (next : Coordinator → Progress × Coordinator) : Progress × Coordinator :=
  match c.session.begin? activity file with
  | .error failure => (.answered (.failed failure), c)
  | .ok session => next { c with session := session, begun := c.begun + 1 }

/-! ### Artifacts -/

/-- The name that the artifacts of a source get. -/
def artifactStem (filePath : String) : String :=
  match Files.fileName? filePath with
  | some name => (Files.splitExtension name).1
  | none => "contract"

/-- A call at a place that may lie off the disk, where all calls succeed. -/
def changeAt (place? : Option Place) (shown : String)
    (act : Place → Disk → Nat → Except Fault Disk) : Action Unit :=
  match place? with
  | none => pure ()
  | some place => do
      match ← Action.change (act place) with
      | .ok () => pure ()
      | .error fault => throw (.io shown fault)

/-- Stores the module and the interface of a result. -/
def persist (settings : Settings) (filePath : String) (result : Result) : Action Artifacts := do
  let shown := Files.joinText (← get).root settings.buildDir
  let steps := (Files.splitSlashes settings.buildDir.toList).map Disk.stepOf
  let directory? := Disk.endOf [] steps
  let stem := artifactStem filePath
  let wasm := stem ++ ".wasm"
  let abi := stem ++ ".abi.json"
  changeAt (directory?.map fun _ => []) shown fun _ d _ => d.makeAlong [] steps
  changeAt (directory?.map (· ++ [wasm])) (Files.joinText shown wasm) fun place d now =>
    d.write place result.bytecode now
  let description := (Codegen.interfaceJson result.interface).pretty
  changeAt (directory?.map (· ++ [abi])) (Files.joinText shown abi) fun place d now =>
    d.write place description.toUTF8.toList now
  let build := settings.buildDir.map fun c => if c = '\\' then '/' else c
  return ⟨build ++ "/" ++ wasm, build ++ "/" ++ abi⟩

/-! ### Compilations -/

/-- Ends a compilation with its result, which may be stored. -/
def finishCompile (c : Coordinator) (params : CompileParams) (result : Result) :
    Progress × Coordinator :=
  if result.success && params.mode.isStored then
    match c.perform (persist c.settings params.filePath result) with
    | (.error failure, c) => c.finishWith (.failed failure)
    | (.ok artifacts, c) =>
        c.finishWith (.compileResult ⟨params.filePath, result, some artifacts, 0⟩)
  else c.finishWith (.compileResult ⟨params.filePath, result, none, 0⟩)

/-- Ends a compilation whose module can be sealed now. One that took too long gives no result. -/
def finishSealing (c : Coordinator) (s : Sealing) : Progress × Coordinator :=
  let c' := if s.draft.wantsSeal then { c with pipeline := c.pipeline.afterSealing } else c
  if c.settings.compileTimeout ≤ s.waited then
    c'.finishWith (.failed (.compileTimeout c.settings.compileTimeout))
  else
    let cancelled := s.cancelled || (s.draft.wantsSeal && c.pipeline.scheme.cancels)
    c'.finishCompile s.params
      (s.draft.finish c.pipeline.schedule (s.draft.payload? c.pipeline.scheme) cancelled)

/-- Compiles a source that has been read; `cancelled` tells whether it has been cancelled by then.
-/
def compileSource (c : Coordinator) (params : CompileParams) (source : String) (cancelled : Bool) :
    Progress × Coordinator :=
  let request : Pipeline.Request :=
    ⟨source, params.mode, params.optimizationLevel, params.quantumSafety, params.gasOptimization⟩
  match c.pipeline.start request fun _ => cancelled with
  | .error refusal => c.finishWith (.failed (.refused refusal))
  | .ok (.error result) => c.finishCompile params result
  | .ok (.ok draft) =>
      let s : Sealing := ⟨params, draft, cancelled, 0⟩
      if draft.wantsSeal && c.holdsSeals then (.pending (.sealing s), c) else c.finishSealing s

/-- Serves a request to compile. -/
def compile (c : Coordinator) (params : CompileParams) : Progress × Coordinator :=
  c.beginThen .compile (some params.filePath) fun c =>
    match c.perform (Loader.load params.filePath) with
    | (.error failure, c) => c.finishWith (.failed failure)
    | (.ok file, c) =>
        let (session, cancelled) := c.session.installCancellation c.begun
        { c with session := session }.compileSource params file.content cancelled

/-! ### Processes -/

/-- How long a process may run: as long as its request says, unless that is no time at all. -/
def timeoutFor (c : Coordinator) (requested : Option Nat) : Nat :=
  match requested with
  | some ms => if 0 < ms then ms else c.settings.processTimeout
  | none => c.settings.processTimeout

def processEvent (activity : Activity) (outcome : Except Failure ProcessOutput) : EventBody :=
  match activity with
  | .run => eventOf .runResult outcome
  | .debug => eventOf .debugResult outcome
  | .terminal | .compile => eventOf .terminalOutput outcome

/-- Starts a program for an activity that has begun. -/
def startProcess (c : Coordinator) (activity : Activity) (spawn : Spawn) :
    Progress × Coordinator :=
  let (session, killed) := c.session.installKill c.begun
  let c := { c with session := session, spawned := c.spawned ++ [spawn] }
  if killed then c.finishWith (.failed (.killed spawn.program))
  else (.pending (.process activity spawn), c)

def existsAt (place : Place) : Action Bool := do
  match ← Action.query (·.stat place) with
  | .ok _ => return true
  | .error _ => return false

/-- Serves a request to run a file with a command. -/
def launch (c : Coordinator) (activity : Activity) (command : Command) (params : RunParams) :
    Progress × Coordinator :=
  c.beginThen activity (some params.filePath) fun c =>
    match Files.confine? params.filePath with
    | none => c.finishWith (.failed (.badPath params.filePath))
    | some place =>
        match c.perform (existsAt place) with
        | (.ok true, c) =>
            let args := command.argsFor (c.store.shown place) ++ params.args
            c.startProcess activity
              ⟨command.program, args, c.store.root, c.timeoutFor params.timeout⟩
        | (_, c) => c.finishWith (.failed (.notFound params.filePath))

def terminal (c : Coordinator) (command : String) (timeout : Option Nat) :
    Progress × Coordinator :=
  c.beginThen .terminal none fun c =>
    let shell := c.settings.shell
    c.startProcess .terminal
      ⟨shell.program, shell.args ++ [command], c.store.root, c.timeoutFor timeout⟩

/-! ### Requests -/

def terminate (c : Coordinator) : Occupation.Signals × TerminateOutcome × Coordinator :=
  let (session, signals, outcome) := c.session.terminateCurrent
  (signals, outcome, { c with session := session })

def shutdown (c : Coordinator) : Occupation.Signals × TerminateOutcome × Coordinator :=
  let (session, signals, outcome) := c.session.shutdown
  (signals, outcome, { c with session := session })

def handle (c : Coordinator) : Request → Progress × Coordinator
  | .saveFile path content baseVersion =>
      c.onFiles (Loader.save path content baseVersion) .fileSaved
  | .loadFile path => c.onFiles (Loader.load path) .fileLoaded
  | .createFile path => c.onFiles (Loader.create path) .fileCreated
  | .deleteFile path => c.onFiles (Loader.delete path) .fileDeleted
  | .getFiles => c.onFiles Loader.list .fileList
  | .compile params => c.compile params
  | .run params => c.launch .run c.settings.runCommand params
  | .debug params => c.launch .debug c.settings.debugCommand params
  | .terminal command timeout => c.terminal command timeout
  | .terminate =>
      let (_, outcome, c) := c.terminate
      (.answered (.terminateResult outcome), c)

def endProcess (c : Coordinator) (activity : Activity) (outcome : Except Failure ProcessOutput) :
    Progress × Coordinator :=
  c.finishWith (processEvent activity outcome)

end Coordinator

end Workbench.Session
