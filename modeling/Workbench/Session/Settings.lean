import Workbench.Files.Path
import Workbench.Json.Reader
import Workbench.Net.Address
import Workbench.Pipeline.Encoding
import Workbench.Session.Failure
import Workbench.Text.Blank

/-!
# Settings of a session

Limits, commands and places that a session works with, and the settings of its pipeline. They are
read from a record in which every field has a default; a limit of zero, a command without a program
and a directory for artifacts that leads nowhere are refused.
-/

namespace Workbench.Session

open Files (Fault)
open Net (Address)

/-! ### Commands -/

/-- A program with its first arguments. -/
structure Command where
  program : String
  args : List String
  deriving DecidableEq, Repr, Inhabited

/-- An argument with a path put in for each mention of a file. -/
def fillIn (path : List Char) : List Char → List Char
  | '\x7b' :: 'f' :: 'i' :: 'l' :: 'e' :: '\x7d' :: rest => path ++ fillIn path rest
  | c :: rest => c :: fillIn path rest
  | [] => []

/-- What stands for the path of a file in the arguments of a command. -/
def fileMark : String := "\x7bfile\x7d"

/-- The arguments of a command for a file. -/
def Command.argsFor (command : Command) (path : String) : List String :=
  command.args.map fun arg => String.ofList (fillIn path.toList arg.toList)

/-! ### Settings -/

structure Settings where
  listenAddr : Address
  /-- The largest file, in bytes. -/
  maxFileSize : Nat
  /-- How long a process may run unless a request says otherwise, in milliseconds. -/
  processTimeout : Nat
  /-- How long a compilation may take, in milliseconds. -/
  compileTimeout : Nat
  /-- How many bytes of each output of a process are kept. -/
  outputLimit : Nat
  /-- How many requests of one client can wait. -/
  queueDepth : Nat
  /-- How many events a client can fall behind. -/
  eventBuffer : Nat
  /-- The directory for artifacts. -/
  buildDir : String
  runCommand : Command
  debugCommand : Command
  /-- What runs the command of a terminal, which becomes its last argument. -/
  shell : Command
  pipeline : Pipeline.Config
  deriving DecidableEq, Repr

namespace Settings

/-- The settings that hold unless others are given. -/
def standard : Settings where
  listenAddr := .bytes 127 0 0 1 8081
  maxFileSize := 1048576
  processTimeout := 30000
  compileTimeout := 10000
  outputLimit := 65536
  queueDepth := 32
  eventBuffer := 1024
  buildDir := "build"
  runCommand := ⟨"usdtg-cli", ["run", fileMark]⟩
  debugCommand := ⟨"usdtg-cli", ["run", "--trace", fileMark]⟩
  shell := ⟨"sh", ["-c"]⟩
  pipeline := .standard

instance : Inhabited Settings := ⟨standard⟩

def limits (s : Settings) : List (String × Nat) :=
  [("maxFileSize", s.maxFileSize), ("processTimeoutMs", s.processTimeout),
    ("compileTimeoutMs", s.compileTimeout), ("outputLimit", s.outputLimit),
    ("queueDepth", s.queueDepth), ("eventBuffer", s.eventBuffer)]

def commands (s : Settings) : List (String × Command) :=
  [("runCommand", s.runCommand), ("debugCommand", s.debugCommand), ("shell", s.shell)]

/-- Whether the directory for artifacts can be one: it is named, and below the project. -/
def hasBuildDir (s : Settings) : Bool :=
  !s.buildDir.isEmpty && !Files.isAbsolute s.buildDir

/-- What is wrong with settings, the first thing of several. -/
def problem? (s : Settings) : Option Failure :=
  match s.limits.find? fun (_, limit) => limit == 0 with
  | some (name, _) => some (.badConfig s!"{name} must be greater than zero")
  | none =>
      match s.commands.find? fun (_, command) => Text.isAllBlank command.program with
      | some (name, _) => some (.badConfig s!"{name} has an empty program")
      | none =>
          if !s.hasBuildDir then some (.badConfig "buildDir must be a non-empty relative path")
          else
            match s.pipeline.validate with
            | .error refusal => some (.refused refusal)
            | .ok _ => none

/-- The settings themselves, if nothing is wrong with them. -/
def validate (s : Settings) : Except Failure Settings :=
  match s.problem? with
  | some failure => .error failure
  | none => .ok s

end Settings

/-! ### Encoding -/

def Command.ofJson? (value : Json) : Option Command := do
  match ← Json.fields? ["program", "args"] value with
  | [program, args] =>
      return ⟨← Json.required Json.asString? program,
        ← Json.withDefault [] (Json.asList? Json.asString?) args⟩
  | _ => none

def Command.toJson (command : Command) : Json :=
  .obj [("program", .str command.program), ("args", .strings command.args)]

namespace Settings

/-- The names of the fields, in the order of their declaration. -/
def fieldNames : List String :=
  ["listenAddr", "maxFileSize", "processTimeoutMs", "compileTimeoutMs", "outputLimit",
    "queueDepth", "eventBuffer", "buildDir", "runCommand", "debugCommand", "shell", "pipeline"]

/-- The settings of a record; none if it is not one. -/
def ofJson? (value : Json) : Option Settings := do
  let number (default : Nat) := Json.withDefault default (Json.asNat? 64)
  let command (default : Command) := Json.withDefault default Command.ofJson?
  match ← Json.fields? fieldNames value with
  | [listenAddr, maxFileSize, processTimeout, compileTimeout, outputLimit, queueDepth, eventBuffer,
      buildDir, runCommand, debugCommand, shell, pipeline] =>
      return {
        listenAddr :=
          ← Json.withDefault standard.listenAddr (fun v => v.asString?.bind Address.parse?)
            listenAddr
        maxFileSize := ← number standard.maxFileSize maxFileSize
        processTimeout := ← number standard.processTimeout processTimeout
        compileTimeout := ← number standard.compileTimeout compileTimeout
        outputLimit := ← number standard.outputLimit outputLimit
        queueDepth := ← number standard.queueDepth queueDepth
        eventBuffer := ← number standard.eventBuffer eventBuffer
        buildDir := ← Json.withDefault standard.buildDir Json.asString? buildDir
        runCommand := ← command standard.runCommand runCommand
        debugCommand := ← command standard.debugCommand debugCommand
        shell := ← command standard.shell shell
        pipeline := ← Json.withDefault standard.pipeline Pipeline.Config.ofJson? pipeline }
  | _ => none

def toJson (s : Settings) : Json :=
  .obj
    [("listenAddr", .str s.listenAddr.text),
      ("maxFileSize", .nat s.maxFileSize),
      ("processTimeoutMs", .nat s.processTimeout),
      ("compileTimeoutMs", .nat s.compileTimeout),
      ("outputLimit", .nat s.outputLimit),
      ("queueDepth", .nat s.queueDepth),
      ("eventBuffer", .nat s.eventBuffer),
      ("buildDir", .str s.buildDir),
      ("runCommand", s.runCommand.toJson),
      ("debugCommand", s.debugCommand.toJson),
      ("shell", s.shell.toJson),
      ("pipeline", s.pipeline.toJson)]

/-- The settings in the text of a file; `path` is the file as messages show it. -/
def ofFile (path : String) (content : Except Fault String) : Except Failure Settings :=
  match content with
  | .error fault => .error (.io path fault)
  | .ok text =>
      match (Json.parseMembers? text).bind ofJson? with
      | none => .error (.badConfig path)
      | some settings => settings.validate

end Settings

end Workbench.Session
