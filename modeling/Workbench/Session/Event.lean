import Workbench.Json.Writer
import Workbench.Pipeline.Encoding
import Workbench.Session.Failure

/-!
# Events

Every request is answered by one event, which all clients of a session receive. An event carries its
number in the order of the session, the client whose request it answers, and the id of that request.
-/

namespace Workbench.Session

open Pipeline (Result)

/-! ### What answers hold -/

structure FileEntry where
  path : String
  mtime : Nat
  size : Nat
  deriving DecidableEq, Repr, Inhabited

structure FileVersion where
  path : String
  mtime : Nat
  size : Nat
  version : Nat
  deriving DecidableEq, Repr, Inhabited

structure FileContent where
  path : String
  content : String
  mtime : Nat
  size : Nat
  version : Nat
  deriving DecidableEq, Repr, Inhabited

/-- What a process leaves. -/
structure ProcessOutput where
  /-- None if a signal ended the process. -/
  exitCode : Option Int
  stdout : String
  stderr : String
  /-- Whether not all of an output was kept. -/
  stdoutTruncated : Bool
  stderrTruncated : Bool
  /-- Whether an output is not a text, so that parts of it were replaced. -/
  stdoutLossy : Bool
  stderrLossy : Bool
  duration : Nat
  deriving DecidableEq, Repr, Inhabited

/-- The files that a compilation stored. -/
structure Artifacts where
  wasm : String
  abi : String
  deriving DecidableEq, Repr, Inhabited

/-- What a compilation in a session leaves. -/
structure CompileOutcome where
  filePath : String
  result : Result
  artifacts : Option Artifacts
  duration : Nat
  deriving Repr, Inhabited

/-- What a request to terminate found and did. -/
structure TerminateOutcome where
  state : State
  cancelledCompile : Bool
  killedProcess : Bool
  deriving DecidableEq, Repr, Inhabited

/-- What an event says. -/
inductive EventBody where
  | fileSaved (file : FileVersion)
  | fileLoaded (file : FileContent)
  | compileResult (outcome : CompileOutcome)
  | runResult (output : ProcessOutput)
  | debugResult (output : ProcessOutput)
  | fileList (files : List FileEntry)
  | fileCreated (file : FileVersion)
  | fileDeleted (file : FileVersion)
  | terminalOutput (output : ProcessOutput)
  | terminateResult (outcome : TerminateOutcome)
  | failed (failure : Failure)
  deriving Repr, Inhabited

structure Event where
  seq : Nat
  client : Nat
  id : Option Json
  body : EventBody
  deriving Repr, Inhabited

/-! ### Encoding -/

def FileEntry.toJson (f : FileEntry) : Json :=
  .obj [("path", .str f.path), ("mtime", .nat f.mtime), ("size", .nat f.size)]

def FileVersion.toJson (f : FileVersion) : Json :=
  .obj
    [("path", .str f.path), ("mtime", .nat f.mtime), ("size", .nat f.size),
      ("version", .nat f.version)]

def FileContent.toJson (f : FileContent) : Json :=
  .obj
    [("path", .str f.path), ("content", .str f.content), ("mtime", .nat f.mtime),
      ("size", .nat f.size), ("version", .nat f.version)]

def ProcessOutput.toJson (p : ProcessOutput) : Json :=
  .obj
    [("exitCode", .ofOption .int p.exitCode),
      ("stdout", .str p.stdout),
      ("stderr", .str p.stderr),
      ("stdoutTruncated", .bool p.stdoutTruncated),
      ("stderrTruncated", .bool p.stderrTruncated),
      ("stdoutLossy", .bool p.stdoutLossy),
      ("stderrLossy", .bool p.stderrLossy),
      ("durationMs", .nat p.duration)]

def Artifacts.toJson (a : Artifacts) : Json :=
  .obj [("wasm", .str a.wasm), ("abi", .str a.abi)]

/-- What a compilation leaves as a record; absent members are left out. -/
def CompileOutcome.toJson (o : CompileOutcome) : Json :=
  .obj
    (("filePath", .str o.filePath) ::
      (o.result.members ++ [("durationMs", .nat o.duration)] ++
        ((failureKind? o.result).map fun kind => ("errorKind", Json.str kind.name)).toList ++
        (o.artifacts.map fun a => ("artifacts", a.toJson)).toList))

def TerminateOutcome.toJson (o : TerminateOutcome) : Json :=
  .obj
    [("state", .str o.state.name),
      ("cancelledCompile", .bool o.cancelledCompile),
      ("killedProcess", .bool o.killedProcess)]

def Failure.toJson (failure : Failure) : Json :=
  .obj
    [("kind", .str failure.kind.name),
      ("stage", .str failure.origin.name),
      ("message", .str failure.message)]

/-- The type of an event and its payload. -/
def EventBody.encode : EventBody → String × Json
  | fileSaved file => ("FileSaved", file.toJson)
  | fileLoaded file => ("FileLoaded", file.toJson)
  | compileResult outcome => ("CompileResult", outcome.toJson)
  | runResult output => ("RunResult", output.toJson)
  | debugResult output => ("DebugResult", output.toJson)
  | fileList files => ("FileList", .arr (files.map FileEntry.toJson))
  | fileCreated file => ("FileCreated", file.toJson)
  | fileDeleted file => ("FileDeleted", file.toJson)
  | terminalOutput output => ("TerminalOutput", output.toJson)
  | terminateResult outcome => ("TerminateResult", outcome.toJson)
  | failed failure => ("Error", failure.toJson)

/-- An event as a record; without an id it has no such member. -/
def Event.toJson (e : Event) : Json :=
  let (typeName, payload) := e.body.encode
  .obj
    ([("seq", .nat e.seq), ("client", .nat e.client)] ++
      (e.id.map fun id => ("id", id)).toList ++
      [("type", .str typeName), ("payload", payload)])

/-- An event as it is sent. -/
def Event.encode (e : Event) : String :=
  e.toJson.compress

end Workbench.Session
