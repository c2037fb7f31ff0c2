import Workbench.Json.Decode
import Workbench.Json.Reader
import Workbench.Pipeline.Encoding
import Workbench.Session.Failure

/-!
# Requests

A request travels as an object with a type, a payload and perhaps an id, which its answer carries
back. The payload is a record of the request's parameters; requests without parameters have none, or
`null`. A message that is no request still gives up its id, so that the failure can be answered to
it.
-/

namespace Workbench.Session

open Pipeline (Mode)

/-! ### Requests -/

/-- What a client asks to be compiled. -/
structure CompileParams where
  filePath : String
  mode : Mode
  optimizationLevel : Option Nat
  quantumSafety : Option Bool
  gasOptimization : Option Bool
  deriving DecidableEq, Repr, Inhabited

/-- What a client asks to be run. -/
structure RunParams where
  filePath : String
  /-- Arguments behind those of the command. -/
  args : List String
  timeout : Option Nat
  deriving DecidableEq, Repr, Inhabited

inductive Request where
  | saveFile (path content : String) (baseVersion : Option Nat)
  | loadFile (path : String)
  | compile (params : CompileParams)
  | run (params : RunParams)
  | debug (params : RunParams)
  | getFiles
  | createFile (path : String)
  | deleteFile (path : String)
  | terminal (command : String) (timeout : Option Nat)
  /-- Cancels the compilation and kills the process that the session is busy with. -/
  | terminate
  deriving DecidableEq, Repr, Inhabited

/-- A request with the id that its answer is to carry. -/
structure Envelope where
  id : Option Json
  request : Request
  deriving Repr, Inhabited

/-- A message that is no request, with the id that it carries all the same. -/
structure Undecodable where
  id : Option Json
  failure : Failure
  deriving Repr, Inhabited

/-! ### Encoding -/

namespace Request

def typeName : Request → String
  | saveFile .. => "SaveFile"
  | loadFile _ => "LoadFile"
  | compile _ => "Compile"
  | run _ => "Run"
  | debug _ => "Debug"
  | getFiles => "GetFiles"
  | createFile _ => "CreateFile"
  | deleteFile _ => "DeleteFile"
  | terminal .. => "TerminalCommand"
  | terminate => "Terminate"

/-- The payload of a request that runs something. -/
def runPayload (p : RunParams) : Json :=
  .obj
    [("filePath", .str p.filePath),
      ("args", .strings p.args),
      ("timeoutMs", .ofOption .nat p.timeout)]

def pathPayload (path : String) : Json :=
  .obj [("path", .str path)]

/-- The payload of a request, with `null` for what is absent. -/
def payload : Request → Json
  | saveFile path content baseVersion =>
      .obj
        [("path", .str path),
          ("content", .str content),
          ("baseVersion", .ofOption .nat baseVersion)]
  | loadFile path | createFile path | deleteFile path => pathPayload path
  | compile p =>
      .obj
        [("filePath", .str p.filePath),
          ("mode", .str p.mode.name),
          ("optimizationLevel", .ofOption .nat p.optimizationLevel),
          ("quantumSafety", .ofOption .bool p.quantumSafety),
          ("gasOptimization", .ofOption .bool p.gasOptimization)]
  | run p | debug p => runPayload p
  | terminal command timeout =>
      .obj [("command", .str command), ("timeoutMs", .ofOption .nat timeout)]
  | getFiles | terminate => .null

end Request

/-! ### Decoding -/

/-- A choice is named by a text, or by an object whose one member is named for it and holds nothing.
-/
def choice? (isNothing : Json → Bool) : Json → Option String
  | .str name => some name
  | .obj [(name, value)] => if isNothing value then some name else none
  | _ => none

/-- Whether a value in a payload counts as nothing: `null`, or an object without members. -/
def isEmptyValue : Json → Bool
  | .null | .obj [] => true
  | _ => false

def mode? (value : Json) : Option Mode :=
  (choice? isEmptyValue value).bind Mode.ofName?

def pathParams? (payload : Json) : Option String := do
  match ← Json.fields? ["path"] payload with
  | [path] => Json.required Json.asString? path
  | _ => none

def runParams? (payload : Json) : Option RunParams := do
  match ← Json.fields? ["filePath", "args", "timeoutMs"] payload with
  | [filePath, args, timeout] =>
      return {
        filePath := ← Json.required Json.asString? filePath
        args := ← Json.withDefault [] (Json.asList? Json.asString?) args
        timeout := ← Json.optional (Json.asNat? 64) timeout }
  | _ => none

def compileParams? (payload : Json) : Option CompileParams := do
  let names := ["filePath", "mode", "optimizationLevel", "quantumSafety", "gasOptimization"]
  match ← Json.fields? names payload with
  | [filePath, mode, level, quantum, gas] =>
      return {
        filePath := ← Json.required Json.asString? filePath
        mode := ← Json.withDefault .debug mode? mode
        optimizationLevel := ← Json.optional (Json.asNat? 8) level
        quantumSafety := ← Json.optional Json.asBool? quantum
        gasOptimization := ← Json.optional Json.asBool? gas }
  | _ => none

/-- The request that saves what a payload holds. -/
def saveRequest? (payload : Json) : Option Request := do
  match ← Json.fields? ["path", "content", "baseVersion"] payload with
  | [path, content, baseVersion] =>
      return .saveFile (← Json.required Json.asString? path)
        (← Json.required Json.asString? content) (← Json.optional (Json.asNat? 64) baseVersion)
  | _ => none

/-- The request that runs the command of a payload. -/
def terminalRequest? (payload : Json) : Option Request := do
  match ← Json.fields? ["command", "timeoutMs"] payload with
  | [command, timeout] =>
      return .terminal (← Json.required Json.asString? command)
        (← Json.optional (Json.asNat? 64) timeout)
  | _ => none

/-- A request without parameters, if the payload agrees. -/
def bareRequest? (request : Request) (payload : Json) : Option Request :=
  if payload.isNull then some request else none

def request? (typeName : String) (payload : Json) : Option Request :=
  match typeName with
  | "SaveFile" => saveRequest? payload
  | "LoadFile" => (pathParams? payload).map .loadFile
  | "Compile" => (compileParams? payload).map .compile
  | "Run" => (runParams? payload).map .run
  | "Debug" => (runParams? payload).map .debug
  | "GetFiles" => bareRequest? .getFiles payload
  | "CreateFile" => (pathParams? payload).map .createFile
  | "DeleteFile" => (pathParams? payload).map .deleteFile
  | "TerminalCommand" => terminalRequest? payload
  | "Terminate" => bareRequest? .terminate payload
  | _ => none

/-- The id among the members of a message; `null` is none. -/
def messageId? (members : List (String × Json)) : Option Json :=
  (Json.lookup? "id" members).filter fun id => !id.isNull

/-- The request that the members of a message make. -/
def requestOf? (members : List (String × Json)) : Option Request := do
  let typeName ← (← Json.lookup? "type" members) |> choice? Json.isNull
  request? typeName ((Json.lookup? "payload" members).getD .null)

def decode (line : String) : Except Undecodable Envelope :=
  match Json.parse? line with
  | none => .error ⟨none, .malformed "message is not valid JSON"⟩
  | some (.obj members) =>
      match requestOf? members with
      | some request => .ok ⟨messageId? members, request⟩
      | none => .error ⟨messageId? members, .malformed "message is not a request"⟩
  | some _ => .error ⟨none, .malformed "message must be a JSON object"⟩

end Workbench.Session
