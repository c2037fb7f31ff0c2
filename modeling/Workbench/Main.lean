import Workbench.CommandLine.Commands

/-!
# The program

The terminal of a process, with the files and channels that the system gives it, and the start of
the program on it.
-/

namespace Workbench.CommandLine

open Files (Disk Fault Place)
open Wasm (Bytes)

/-! ### The files of the system -/

/-- The fault for which a call to the system failed. The number of a cause can come negated. -/
def faultOf : IO.Error → Fault
  | .noFileOrDirectory .. => .missing
  | .permissionDenied .. => .denied
  | .alreadyExists .. => .exists
  | .inappropriateType _ number _ =>
      if number = 21 ∨ number = 0 - 21 then .isDirectory else .notDirectory
  | other => .other (toString other)

/-- What a call to the system gives, or its fault. -/
def attempted {α : Type} (act : IO α) : IO (Except Fault α) := do
  match ← act.toBaseIO with
  | .ok value => return .ok value
  | .error failure => return .error (faultOf failure)

def textOf (bytes : ByteArray) : Except Fault String :=
  match String.fromUTF8? bytes with
  | some text => .ok text
  | none => .error .notText

/-- A disk to which the files and directories below a directory of the system are added. -/
partial def addBelow (directory : String) (place : Place) (disk : Disk) : IO Disk := do
  let mut disk := disk
  for entry in ← (← IO.FS.realPath directory).readDir do
    let path := s!"{directory}/{entry.fileName}"
    let here := place ++ [entry.fileName]
    if (← entry.path.metadata).type == .dir then
      disk ← addBelow path here (disk.put here .directory)
    else
      disk := disk.put here (.file (← IO.FS.readBinFile path).toList 0)
  return disk

/-- A disk with the tree that a path of the system leads to, and the path to it on that disk. -/
def readTree (path : String) : IO (Disk × String) := do
  let target ← IO.FS.realPath path
  if (← target.metadata).type == .dir then
    return (← addBelow path [] .empty, ".")
  let name := (Files.fileName? path).getD "."
  return (Disk.empty.put [name] (.file (← IO.FS.readBinFile path).toList 0), name)

/-! ### The channels of the process -/

/-- All that is left to read of a stream. -/
partial def readAll (stream : IO.FS.Stream) (before : ByteArray) : IO ByteArray := do
  let chunk ← stream.read 65536
  if chunk.isEmpty then return before else readAll stream (before ++ chunk)

/-- The terminal of the process. It has no network, so nothing is served. -/
def systemTerminal : Terminal IO where
  readFile path := do return (← attempted (IO.FS.readBinFile path)).bind textOf
  writeFile path content := attempted (IO.FS.writeBinFile path ⟨content.toArray⟩)
  makeDirectories path := attempted (IO.FS.createDirAll path)
  tree path := attempted (readTree path)
  readInput := do return (← attempted (readAll (← IO.getStdin) .empty)).bind textOf
  print text := IO.print text
  warn text := IO.eprint text
  clock := IO.monoMsNow
  listen _ := return .error (.other "Network is unreachable (os error 101)")

/-! ### Reports -/

/-- The report of a failure: its message and, below, the causes. -/
def failureReport : List String → String
  | [] => "Error\n"
  | [message] => s!"Error: {message}\n"
  | message :: causes =>
      s!"Error: {message}\n\nCaused by:\n" ++ "".intercalate (causes.map fun c => s!"    {c}\n")

/-- The commands, for those who ask. -/
def helpText : String :=
  "Usage: workbench <COMMAND>\n\n" ++
  "Commands:\n" ++
  "  compile  Compile one contract\n" ++
  "  check    Compile all contracts of a project\n" ++
  "  run      Run a function of a contract\n" ++
  "  serve    Serve a session\n"

/-- What is answered to a line that is no command. -/
def usageReport : Usage → IO Unit
  | .help => IO.print helpText
  | .version => IO.print "workbench 0.1.0\n"
  | _ => IO.eprint ("error: the arguments fit no command\n\n" ++ helpText)

end Workbench.CommandLine

def main (arguments : List String) : IO UInt32 := do
  let conclusion ← Workbench.CommandLine.systemTerminal.carryOut arguments
  match conclusion with
  | .done => pure ()
  | .failed chain => IO.eprint (Workbench.CommandLine.failureReport chain)
  | .refused usage => Workbench.CommandLine.usageReport usage
  return conclusion.exitCode.toUInt32
