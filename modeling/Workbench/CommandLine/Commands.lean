import Workbench.CommandLine.Options
import Workbench.CommandLine.Terminal
import Workbench.Project.Batch
import Workbench.Session.Settings
import Workbench.Text.Quoted
import Workbench.Trial.Call

/-!
# Commands

What the commands do: compile one contract, check all contracts of a project, run a function of a
contract, and serve a session. A command that fails ends with what went wrong and its causes,
outermost first; what it printed until then stays printed.
-/

namespace Workbench.CommandLine

open Codegen (InterfaceEntry)
open Files (Fault)
open Pipeline (Compiler Mode Result Artifact Request)
open Source (Diagnostic)
open Trial (World)
open Wasm (Bytes)

variable {m : Type → Type} [Monad m]

/-- Something that a command does: it can fail with a message and its causes. -/
abbrev Failing (m : Type → Type) := ExceptT (List String) m

/-- What an attempt gives, or a failure under a headline. -/
def attempt {α : Type} (headline : String) (act : m (Except Fault α)) : Failing m α := do
  match ← act with
  | .ok value => return value
  | .error fault => throw [headline, fault.text]

/-! ### Steps of commands -/

def compileSource (options : PipelineOptions) (source : String) (mode : Mode) : Failing m Result :=
  match ((Compiler.standard options.config).compile (.plain source mode) fun _ => false).1 with
  | .ok result => return result
  | .error refusal => throw [refusal.message]

/-- Fails for a result without artifact. -/
def demandSuccess (result : Result) : Failing m Unit :=
  if result.success then return ()
  else throw [s!"compilation failed with {result.errors.length} error(s)"]

namespace Terminal

variable (t : Terminal m)

def readSource (path : String) : Failing m String :=
  attempt s!"failed to read input file {path}" (t.readFile path)

/-- Prints the messages of a result with the places that they are about. -/
def report (origin source : String) (result : Result) : m Unit :=
  (result.warnings ++ result.errors).forM fun d => do
    let (line, column) := d.span.lineColumn source
    t.warn s!"{origin}:{line}:{column}: {d.text}\n"

/-- Writes a file, in a directory that is made for it. -/
def writeOutput (path : String) (content : Bytes) : Failing m Unit := do
  let parent := (Files.parentText? path).getD ""
  if !parent.isEmpty then
    attempt s!"failed to create directory {Text.quote parent}" (t.makeDirectories parent)
  attempt s!"failed to write output file {path}" (t.writeFile path content)

end Terminal

/-! ### Commands -/

/-- A result as a record, with the time that it took. -/
def resultText (result : Result) (milliseconds : Nat) : String :=
  (Json.obj (result.members ++ [("durationMs", .nat milliseconds)])).pretty

def interfaceText (entries : List InterfaceEntry) : String :=
  (Codegen.interfaceJson entries).pretty

namespace Terminal

variable (t : Terminal m)

/-- Compiles one contract, and writes its module and interface if the mode stores them. -/
def compile (o : CompileOptions) : Failing m Unit := do
  let source ← match o.input? with
    | some path => t.readSource path
    | none =>
        match ← t.readInput with
        | .ok text => pure text
        | .error fault => throw [fault.text]
  let start ← t.clock
  let result ← compileSource o.pipeline source o.mode
  let stop ← t.clock
  t.report (o.input?.getD "<stdin>") source result
  if o.json then t.print (resultText result (stop - start) ++ "\n")
  demandSuccess result
  t.print s!"gas estimate: {result.gas}\n"
  if !o.mode.isStored then
    if o.output?.isSome || o.interface?.isSome then
      t.warn s!"outputs are not written in {o.mode.name} mode\n"
    return ()
  match o.output? <|> o.input?.map (Files.withExtension · "wasm") with
  | none => throw ["--output is required when reading from stdin"]
  | some output =>
      let interfacePath := o.interface?.getD (Files.withExtension output "abi.json")
      t.writeOutput output result.bytecode
      t.writeOutput interfacePath (interfaceText result.interface).toUTF8.toList
      t.print s!"wrote {output} and {interfacePath}\n"

def reportFile (file : Project.FileResult) : m Unit := do
  let path := file.place.text
  if file.result.success then t.print s!"ok     {path} (gas {file.result.gas})\n"
  else t.print s!"FAILED {path}\n"
  (file.result.warnings ++ file.result.errors).forM fun d => t.warn s!"{path}: {d.text}\n"

def check (o : CheckOptions) : Failing m Unit := do
  let pipeline := Compiler.standard o.pipeline.config
  let results := match ← t.tree o.directory with
    | .ok (disk, path) => (Project.compileProject pipeline disk path o.directory o.mode).1
    | .error fault => .error (Project.unreadable o.directory fault)
  match results with
  | .error refusal => throw [refusal.message]
  | .ok files =>
      files.forM fun file => t.reportFile file
      let failed := (files.filter fun file => !file.result.success).length
      t.print s!"{files.length} file(s), {failed} failed\n"
      if 0 < failed then throw [s!"{failed} file(s) failed to compile"]

/-- Prints what became of the world of a trial call. -/
def showWorld (trace : Bool) (w : World) : m Unit := do
  w.events.forM fun value => t.print s!"event: {Trial.wordText value}\n"
  if trace then
    w.storage.forM fun (slot, value) =>
      t.print s!"storage[{Trial.wordText slot}] = {Trial.wordText value}\n"
  if w.destroyed then t.print "contract self-destructed\n"

/-- Runs a function of a contract in a fresh world. -/
def run (o : RunOptions) : Failing m Unit := do
  if o.mode = .simulation then throw ["simulation mode produces no bytecode to run"]
  let source ← t.readSource o.input
  let result ← compileSource o.pipeline source o.mode
  t.report o.input source result
  demandSuccess result
  let entry ← liftExcept (Trial.pickEntry result.interface o.function?)
  let args ← liftExcept (Trial.readArguments entry o.args)
  match result.artifact?.bind (·.module?) with
  | none => throw ["simulation mode produces no bytecode to run"]
  | some module =>
      let (outcome, w) := Trial.call module entry args (.fresh o.caller o.timestamp)
      if o.trace then w.exchanges.reverse.forM fun e => t.print s!"trace: {e.text}\n"
      let value? ← liftExcept outcome
      let shown := ", ".intercalate o.args
      t.print s!"{entry.name}({shown}) -> {Trial.resultText entry value?}\n"
      t.showWorld o.trace w
where
  liftExcept {α : Type} : Except Trial.Problem α → Failing m α
    | .ok value => return value
    | .error problem => throw problem.chain

/-- Serves a session under the settings of a file. -/
def serve (o : ServeOptions) : Failing m Unit := do
  let settings ← match o.settings? with
    | none => pure Session.Settings.standard
    | some path =>
        match Session.Settings.ofFile path (← t.readFile path) with
        | .ok settings => pure settings
        | .error failure => throw failure.chain
  let address := o.listen?.getD settings.listenAddr
  attempt s!"failed to listen on {address.text}" (t.listen address)

/-! ### Command lines -/

def invoke : Invocation → Failing m Unit
  | .compile options => t.compile options
  | .check options => t.check options
  | .run options => t.run options
  | .serve options => t.serve options

end Terminal

/-- How a program ends. -/
inductive Conclusion where
  | done
  /-- A command failed, with its message and the causes. -/
  | failed (chain : List String)
  /-- No command was carried out. -/
  | refused (usage : Usage)
  deriving DecidableEq, Repr

/-- What a program tells its caller when it ends. -/
def Conclusion.exitCode : Conclusion → Nat
  | done => 0
  | failed _ => 1
  | refused usage => usage.exitCode

def Terminal.carryOut (t : Terminal m) (arguments : List String) : m Conclusion := do
  match Invocation.read false arguments with
  | .error usage => return .refused usage
  | .ok invocation =>
      match ← (t.invoke invocation).run with
      | .ok () => return .done
      | .error chain => return .failed chain

end Workbench.CommandLine
