import Workbench.Sandbox.Arithmetic
import Workbench.Sandbox.Script
import Workbench.Sandbox.Tools

/-!
# The state of a shell

What a shell knows and has done: its variables, where its channels lead, what was written when, and
the jobs that it started. The commands that only change this state are here.

Time passes only while a command takes some. What a shell and its jobs write is kept in one log with
the time of every piece, so the log can hold what a job would write later.
-/

namespace Workbench.Sandbox

open Files (Disk Fault Place)
open Wasm (Bytes)

/-! ### Channels -/

/-- Where the bytes of a channel go. -/
inductive Sink where
  | out
  | err
  | nowhere
  /-- To a file, by its path from the root of the disk. -/
  | file (path : String)
  /-- Into a pipe; pipes are numbered by how deep they nest. -/
  | pipe (level : Nat)
  deriving DecidableEq, Repr, Inhabited

/-- Something that was written. -/
structure Written where
  time : Nat
  /-- The process that wrote it. -/
  writer : Nat
  sink : Sink
  output : Output
  deriving Repr, Inhabited

/-- What came to a sink up to a time, in order. -/
def writtenTo (sink : Sink) (time : Nat) (log : List Written) : Output :=
  let pieces := log.reverse.filter fun w => w.sink = sink && w.time ≤ time
  let ordered := pieces.mergeSort fun a b => a.time ≤ b.time
  let finite := ordered.takeWhile fun w => !w.output.isEndless
  let last := ((ordered.drop finite.length).head?.map (·.output)).getD .empty
  ⟨(finite.map (·.output.start)).flatten ++ last.start, last.cycle⟩

/-! ### Shells -/

/-- What keeps a shell from going on with the next command. -/
inductive Stop where
  | exited
  | signalled (number : Nat)
  /-- It goes on for ever. -/
  | never
  /-- So many loops are left. -/
  | left (loops : Nat)
  /-- So many loops are left but for the last, which goes on with its next round. -/
  | continued (loops : Nat)
  | returned
  deriving DecidableEq, Repr, Inhabited

/-- A command in the background. -/
structure Job where
  process : Nat
  /-- When it ends; none if it never does. -/
  ends? : Option Nat
  status : Nat
  /-- The signal that it ended by. -/
  signal? : Option Nat
  deriving Repr, Inhabited

structure Shell where
  site : Site
  /-- The name under which the shell complains. -/
  name : String
  /-- The number of its process. -/
  process : Nat
  params : List String
  bindings : List (String × String)
  /-- The variables that other programs see. -/
  exported : List String
  functions : List (String × Script)
  /-- The letters of the options that are set. -/
  options : List Char
  /-- The exit code of the last command. -/
  status : Nat
  /-- What to do at signals. -/
  traps : List (String × String)
  jobs : List Job
  /-- How many jobs were ever started. -/
  started : Nat
  input : Output
  /-- Where the channels lead that are open. -/
  sinks : List (Nat × Sink)
  /-- What was written, latest first. -/
  log : List Written
  /-- How many pipes there are around the shell. -/
  depth : Nat
  /-- How many loops there are around the command. -/
  loops : Nat
  /-- The variables that the function around the command declared for itself, with their values
  before; none if there is no function. -/
  declared? : Option (List (String × Option String))
  /-- The time that has passed, in milliseconds. -/
  clock : Nat
  stop? : Option Stop
  deriving Inhabited

namespace Shell

/-- The number of a shell that no other shell has started. -/
def processId : Nat := 4242

/-- A shell that has done nothing yet. -/
def fresh (site : Site) (name : String) (input : Output) : Shell where
  site := site
  name := name
  process := processId
  params := []
  bindings := []
  exported := []
  functions := []
  options := []
  status := 0
  traps := []
  jobs := []
  started := 0
  input := input
  sinks := [(1, .out), (2, .err)]
  log := []
  depth := 0
  loops := 0
  declared? := none
  clock := 0
  stop? := none

def withStatus (sh : Shell) (code : Nat) : Shell :=
  { sh with status := code }

def forEver (sh : Shell) : Shell :=
  { sh with stop? := some .never }

/-- What came to the output and to the channel for complaints. -/
def outputs (sh : Shell) : Output × Output :=
  (writtenTo .out sh.clock sh.log, writtenTo .err sh.clock sh.log)

/-! ### Writing -/

/-- Where a channel leads; none if it is closed. -/
def sink? (sh : Shell) (channel : Nat) : Option Sink :=
  (sh.sinks.find? fun (c, _) => c == channel).map (·.2)

/-- With a channel that leads elsewhere, or nowhere at all. -/
def setSink (sh : Shell) (channel : Nat) (sink? : Option Sink) : Shell :=
  { sh with
    sinks := (sink?.map (channel, ·)).toList ++ sh.sinks.filter fun (c, _) => c != channel }

/-- Writes to a file, behind what it holds. -/
def appendToFile (sh : Shell) (path : String) (bytes : Bytes) : Shell :=
  let before := match sh.site.disk.locate path with
    | .ok (_, .file content _) => content
    | _ => []
  match sh.site.disk.writeAt path (before ++ bytes) 0 with
  | .ok disk => { sh with site := { sh.site with disk := disk } }
  | .error _ => sh

/-- Writes to a channel. What never stops writing goes on for ever. -/
def emit (sh : Shell) (channel : Nat) (output : Output) : Shell :=
  let sh := if output.isEndless then sh.forEver else sh
  match sh.sink? channel with
  | none | some .nowhere => sh
  | some (.file path) => sh.appendToFile path output.start
  | some sink =>
      if output = .empty then sh
      else { sh with log := ⟨sh.clock, sh.process, sink, output⟩ :: sh.log }

def complain (sh : Shell) (line : Nat) (text : String) (status : Nat) : Shell :=
  (sh.emit 2 (.ofText s!"{sh.name}: {line}: {text}\n")).withStatus status

def exit (sh : Shell) (code : Nat) : Shell :=
  { sh with status := code % 256, stop? := some .exited }

/-- Complains about something that a script cannot go on after. -/
def fail (sh : Shell) (line : Nat) (text : String) : Shell :=
  (sh.complain line text 2).exit 2

/-- Writes what a command of the shell itself shows. -/
def display (sh : Shell) (line : Nat) (command : String) (output : Output) : Shell :=
  let sh := sh.withStatus 0
  if (sh.sink? 1).isNone && output != .empty then
    sh.complain line s!"{command}: {command}: I/O error" 1
  else sh.emit 1 output

/-- The shell behind the deed of a program. -/
def after (sh : Shell) (d : Deed) : Shell :=
  let sh := { sh with site := { sh.site with disk := d.disk?.getD sh.site.disk } }
  let err : Output := .ofText d.err
  let written :=
    if d.complainsFirst then (sh.emit 2 err).emit 1 d.out else (sh.emit 1 d.out).emit 2 err
  { written with
    clock := sh.clock + d.lasts
    status := d.code
    stop? := if d.endless then some .never else written.stop? }

/-! ### Variables -/

def binding? (sh : Shell) (name : String) : Option String :=
  (sh.bindings.find? fun (n, _) => n == name).map (·.2)

def setVariable (sh : Shell) (name value : String) : Shell :=
  { sh with bindings := (name, value) :: sh.bindings.filter fun (n, _) => n != name }

/-- Lets other programs see variables. -/
def exportNames (sh : Shell) (names : List String) : Shell :=
  { sh with exported := (sh.exported ++ names).eraseDups }

/-- The value of a parameter; none if it has none. -/
def value? (sh : Shell) (name : String) : Option String :=
  let joined := if sh.params.isEmpty then none else some (" ".intercalate sh.params)
  match name with
  | "?" => some (toString sh.status)
  | "$" => some (toString processId)
  | "!" => if sh.started = 0 then none else some (toString (processId + sh.started))
  | "#" => some (toString sh.params.length)
  | "-" => some (String.ofList sh.options)
  | "@" | "*" => joined
  | "0" => some sh.name
  | _ =>
      match name.toNat? with
      | some n => sh.params[n - 1]?
      | none => sh.binding? name

/-- Sets variables from texts with an equals sign; the names in all texts. -/
def setVariables (sh : Shell) (texts : List String) : Shell × List String :=
  texts.foldl
    (fun (sh, names) t =>
      match t.splitOn "=" with
      | name :: first :: rest =>
          (sh.setVariable name ("=".intercalate (first :: rest)), names ++ [name])
      | _ => (sh, names ++ [t]))
    (sh, [])

/-- The shortest or longest part at an end of a value that fits a pattern is taken off. -/
def trim (operator pattern value : String) : String :=
  let chars := value.toList
  let sizes := List.range (chars.length + 1)
  let fitsFirst (n : Nat) := fitsPattern pattern (String.ofList (chars.take n))
  let fitsLast (n : Nat) := fitsPattern pattern (String.ofList (chars.drop (chars.length - n)))
  let without? : Option (List Char) := match operator with
    | "#" => (sizes.find? fitsFirst).map chars.drop
    | "##" => (sizes.reverse.find? fitsFirst).map chars.drop
    | "%" => (sizes.find? fitsLast).map fun n => chars.take (chars.length - n)
    | _ => (sizes.reverse.find? fitsLast).map fun n => chars.take (chars.length - n)
  String.ofList (without?.getD chars)

/-! ### Fields -/

/-- A field that is being put together, with whether any part of it is quoted. -/
abbrev OpenField := String × Bool

/-- With text behind the last field. -/
def extend (fields : List OpenField) (text : String) (quoted : Bool) : List OpenField :=
  match fields.getLast? with
  | some (last, before) => fields.dropLast ++ [(last ++ text, before || quoted)]
  | none => [(text, quoted)]

/-- With text behind the last field that is cut into fields at blanks. -/
def extendCut (fields : List OpenField) (text : String) : List OpenField :=
  let isBlank (c : Char) : Bool := c == ' ' || c == '\t' || c == '\n'
  let pieces := (text.toList.splitBy fun a b => isBlank a == isBlank b)
  let fields := pieces.foldl
    (fun (fields : List OpenField × Bool) piece =>
      if piece.all isBlank then (fields.1, true)
      else if fields.2 then (fields.1 ++ [(String.ofList piece, false)], false)
      else (extend fields.1 (String.ofList piece) false, false))
    (fields, false)
  if fields.2 && !text.isEmpty then fields.1 ++ [("", false)] else fields.1

/-- Drops the fields that are empty without being quoted. -/
def closeFields (fields : List OpenField) : List OpenField :=
  fields.filter fun (text, quoted) => quoted || !text.isEmpty

/-- Whether a text has characters that mean something in a pattern. -/
def isPattern (text : String) : Bool :=
  text.any fun c => c == '*' || c == '?' || c == '['

/-- The paths that fit a pattern, piece by piece from a directory on. -/
def pathsAlong (site : Site) (before : String) : List (List Char) → List String
  | [] => [before]
  | piece :: rest =>
      let pattern := String.ofList piece
      let within (name : String) : String := if before.isEmpty then name else s!"{before}/{name}"
      let onward (name : String) : List String :=
        let path := within name
        if rest.isEmpty || (site.find path).toOption.any fun (_, node) => node.isDirectory then
          pathsAlong site path rest
        else []
      if isPattern pattern then
        match site.find (if before.isEmpty then "." else before) with
        | .ok (place, .directory) =>
            ((namesIn site place).filter (fitsPattern pattern)).flatMap onward
        | _ => []
      else if (site.find (within pattern)).toOption.isSome then onward pattern
      else []

/-- The paths that a field stands for, or the field itself if none fits. -/
def expandPattern (sh : Shell) (field : OpenField) : List String :=
  let (text, quoted) := field
  if quoted || !isPattern text || sh.options.contains 'f' then [text]
  else
    match pathsAlong sh.site "" (Files.splitSlashes text.toList) with
    | [] => [text]
    | paths => paths

/-! ### Signals -/

/-- The signals by number, with what is told of a process that one ended. -/
def signals : List (Nat × String × String) :=
  [(0, "EXIT", ""), (1, "HUP", "Hangup"), (2, "INT", ""), (3, "QUIT", "Quit"),
    (6, "ABRT", "Aborted"), (9, "KILL", "Killed"), (10, "USR1", "User defined signal 1"),
    (12, "USR2", "User defined signal 2"), (13, "PIPE", ""), (14, "ALRM", "Alarm clock"),
    (15, "TERM", "Terminated"), (17, "CHLD", ""), (18, "CONT", ""), (19, "STOP", "")]

/-- The name of a signal, which can be given by its number. -/
def signalName? (text : String) : Option String :=
  let isMeant : Nat × String × String → Bool := fun (n, name, _) =>
    toString n == text || name == text || "SIG" ++ name == text
  (signals.find? isMeant).map (·.2.1)

def signalNumber (name : String) : Nat :=
  ((signals.find? fun (_, n, _) => n == name).map (·.1)).getD 0

/-- What is told of a process that a signal ended. -/
def signalText (number : Nat) : Output :=
  match signals.find? fun (n, _, _) => n == number with
  | some (_, _, text) => if text.isEmpty then .empty else .ofText (text ++ "\n")
  | none => .empty

/-- What is to be done at a signal. -/
def trap? (sh : Shell) (signal : String) : Option String :=
  (sh.traps.find? fun (s, _) => s == signal).map (·.2)

def setTrap (sh : Shell) (action? : Option String) (signal : String) : Shell :=
  match signalName? signal with
  | none => (sh.emit 2 (.ofText s!"trap: {signal}: bad trap\n")).withStatus 1
  | some name =>
      { sh with
        traps := (action?.map (name, ·)).toList ++ sh.traps.filter fun (s, _) => s != name }

/-- Sets what is to be done at signals, or shows it. -/
def setTraps (sh : Shell) (args : List String) : Shell :=
  let sh := sh.withStatus 0
  match args with
  | [] =>
      let rows := signals.filterMap fun (_, name, _) =>
        (sh.trap? name).map fun action => s!"trap -- '{action}' {name}\n"
      sh.emit 1 (.ofText (String.join rows))
  | "-" :: names => names.foldl (fun sh name => sh.setTrap none name) sh
  | [name] => sh.setTrap none name
  | action :: names => names.foldl (fun sh name => sh.setTrap (some action) name) sh

/-! ### Jobs -/

/-- Ends a job by a signal, unless it has ended; what it would have written later is not. -/
def endJob (sh : Shell) (process number : Nat) : Shell :=
  let isOver (job : Job) : Bool := job.ends?.any (· ≤ sh.clock)
  let change (job : Job) : Job :=
    if job.process = process then
      { job with ends? := some sh.clock, status := 128 + number, signal? := some number }
    else job
  if sh.jobs.any fun job => job.process = process && !isOver job then
    { sh with
      jobs := sh.jobs.map change
      log := sh.log.filter fun w => w.writer ≠ process || w.time ≤ sh.clock }
  else sh

def waitFor (sh : Shell) (job : Job) : Shell :=
  match job.ends? with
  | none => sh.forEver
  | some time => { sh with clock := max sh.clock time, status := job.status }

/-- Waits for all jobs, or for those that are named. -/
def wait (sh : Shell) (args : List String) : Shell :=
  match args with
  | [] => ({ sh.jobs.foldl waitFor sh with jobs := [] }).withStatus 0
  | _ =>
      args.foldl
        (fun sh arg =>
          match sh.jobs.find? fun job => toString job.process == arg with
          | none => sh.withStatus 127
          | some job =>
              let told := (job.signal?.map signalText).getD .empty
              (sh.waitFor job).emit 2 told)
        sh

/-! ### Commands of the shell itself -/

/-- The commands that the shell does itself. -/
def builtinNames : List String :=
  [":", "true", "false", "echo", "printf", "pwd", "cd", "wait", "trap", "export", "readonly",
    "unset", "set", "shift", "test", "[", "exit", "return", "break", "continue", "eval", "exec",
    "kill", "read", "command", "type", "umask", ".", "local", "alias", "unalias", "hash", "times",
    "ulimit", "getopts", "jobs", "fg", "bg"]

/-- The commands that belong to the language: a mistake in one ends the script. -/
def specialNames : List String :=
  [":", ".", "break", "continue", "eval", "exec", "exit", "export", "readonly", "return", "set",
    "shift", "times", "trap", "unset"]

/-- How a test ends: it holds, does not, or makes no sense. -/
abbrev Verdict := Except String Bool

def compareNumbers (a b : String) (test : Int → Int → Bool) : Verdict :=
  match a.toInt?, b.toInt? with
  | some a, some b => .ok (test a b)
  | none, _ => .error s!"Illegal number: {a}"
  | _, none => .error s!"Illegal number: {b}"

/-- A test of up to three arguments. -/
def simpleTest (site : Site) (args : List String) : Verdict :=
  let node? (path : String) := (site.find path).toOption.map (·.2)
  match args with
  | [] => .ok false
  | [text] => .ok (text != "")
  | ["!", text] => .ok (text == "")
  | ["-n", text] => .ok (text != "")
  | ["-z", text] => .ok (text == "")
  | ["-e", path] | ["-r", path] | ["-w", path] => .ok (node? path).isSome
  | ["-f", path] => .ok ((node? path).any fun n => !n.isDirectory)
  | ["-d", path] | ["-x", path] => .ok ((node? path).any fun n => n.isDirectory)
  | ["-s", path] => .ok ((node? path).any fun
      | .file content _ => !content.isEmpty
      | .directory => true)
  | [a, "=", b] => .ok (a == b)
  | [a, "!=", b] => .ok (a != b)
  | [a, "<", b] => .ok (a < b)
  | [a, ">", b] => .ok (b < a)
  | [a, "-eq", b] => compareNumbers a b (· == ·)
  | [a, "-ne", b] => compareNumbers a b (· != ·)
  | [a, "-lt", b] => compareNumbers a b (· < ·)
  | [a, "-le", b] => compareNumbers a b (· ≤ ·)
  | [a, "-gt", b] => compareNumbers a b (· > ·)
  | [a, "-ge", b] => compareNumbers a b (· ≥ ·)
  | first :: _ => .error s!"{first}: unexpected operator"

/-- A test, in which parts can be joined. -/
def evalTest (site : Site) (fuel : Nat) (args : List String) : Verdict :=
  let parts (joint : String) : List String × List String :=
    (args.takeWhile (· != joint), (args.dropWhile (· != joint)).drop 1)
  match fuel with
  | 0 => .ok false
  | fuel + 1 =>
      if args.length ≤ 3 && args.head? != some "!" then simpleTest site args
      else if args.contains "-o" then do
        let (a, b) := parts "-o"
        return (← evalTest site fuel a) || (← evalTest site fuel b)
      else if args.contains "-a" then do
        let (a, b) := parts "-a"
        return (← evalTest site fuel a) && (← evalTest site fuel b)
      else
        match args with
        | "!" :: rest => (evalTest site fuel rest).map (!·)
        | _ => simpleTest site args

/-- Does a test; `command` is the name by which it was asked for. -/
def test (sh : Shell) (line : Nat) (command : String) (args : List String) : Shell :=
  if command = "[" && args.getLast? != some "]" then sh.complain line "[: missing ]" 2
  else
    match evalTest sh.site (args.length + 1) (if command = "[" then args.dropLast else args) with
    | .ok holds => sh.withStatus (if holds then 0 else 1)
    | .error text => sh.complain line s!"{command}: {text}" 2

def changeDirectory (sh : Shell) (line : Nat) (args : List String) : Shell :=
  let goTo (path : String) (told : Bool) : Shell :=
    match sh.site.find path with
    | .ok (place, .directory) =>
        let moved := { sh.setVariable "OLDPWD" sh.site.place.text with
          site := { sh.site with place := place } }
        if told then moved.display line "cd" (.ofText (moved.site.workingPath ++ "\n"))
        else moved.withStatus 0
    | _ => sh.complain line s!"cd: can't cd to {path}" 2
  match args with
  | [] | "" :: _ => sh.withStatus 0
  | "-" :: _ =>
      match sh.binding? "OLDPWD" with
      | some before =>
          let moved := { sh with site := { sh.site with place := [] } }
          match moved.site.find (if before.isEmpty then "." else before) with
          | .ok (place, _) =>
              let moved := { sh with site := { sh.site with place := place } }
              moved.display line "cd" (.ofText (moved.site.workingPath ++ "\n"))
          | .error _ => sh.complain line s!"cd: can't cd to {before}" 2
      | none => sh.withStatus 0
  | path :: _ => goTo path false

def setOptions (sh : Shell) (args : List String) : Shell :=
  match args with
  | [] => sh
  | "--" :: rest => { sh with params := rest }
  | "-o" :: _ :: rest | "+o" :: _ :: rest => setOptions sh rest
  | arg :: rest =>
      match arg.toList with
      | '-' :: letters => setOptions { sh with options := (sh.options ++ letters).eraseDups } rest
      | '+' :: letters =>
          setOptions { sh with options := sh.options.filter fun c => !letters.contains c } rest
      | _ => { sh with params := arg :: rest }

/-- A line of an input without the backslashes that take the meaning from what follows, whether it
has an end, and what follows it. -/
def readLineOf (raw : Bool) (fuel : Nat) (done bytes : Bytes) : Bytes × Bool × Bytes :=
  match fuel, bytes with
  | fuel + 1, 0x5c :: b :: rest =>
      if raw then readLineOf raw fuel (done ++ [0x5c]) (b :: rest)
      else readLineOf raw fuel (if b = 10 then done else done ++ [b]) rest
  | fuel + 1, b :: rest =>
      if b = 10 then (done, true, rest) else readLineOf raw fuel (done ++ [b]) rest
  | _, rest => (done, false, rest)

/-- Shares the words of a text among variables; the last one gets all that is left. -/
def shareWords (fuel : Nat) (sh : Shell) (names : List String) (text : List Char) : Shell :=
  let isBlank (c : Char) : Bool := c == ' ' || c == '\t'
  let text := text.dropWhile isBlank
  match fuel, names with
  | _, [] | 0, _ => sh
  | _, [name] =>
      sh.setVariable name (String.ofList (text.reverse.dropWhile isBlank).reverse)
  | fuel + 1, name :: names =>
      let word := text.takeWhile fun c => !isBlank c
      shareWords fuel (sh.setVariable name (String.ofList word)) names (text.drop word.length)

/-- Reads a line of the input into variables. -/
def read (sh : Shell) (line : Nat) (args : List String) : Shell :=
  let (flags, names) := splitFlags args
  if names.isEmpty then sh.complain line "read: arg count" 2
  else
    let bytes := sh.input.start ++ sh.input.cycle
    let (found, ended, rest) := readLineOf (flags.contains 'r') (bytes.length + 1) [] bytes
    let text := (Text.decodeLossy found).1
    let done := shareWords (names.length + 1) sh names text.toList
    { done with
      input := if sh.input.isEndless then sh.input else ⟨rest, []⟩
      status := if ended then 0 else 1 }

/-- A number that an argument gives, or what is wrong with it. -/
def numberOf (text : String) : Except String Nat :=
  if text.isEmpty || !text.all Char.isDigit then .error s!"Illegal number: {text}"
  else .ok (readDecimal text.toList).1

/-- Leaves loops, or goes on with their next round. -/
def leaveLoops (sh : Shell) (line : Nat) (command : String) (args : List String)
    (stop : Nat → Stop) : Shell :=
  match args.head?.elim (.ok 1) numberOf with
  | .ok (n + 1) =>
      if sh.loops = 0 then sh.withStatus 0
      else { sh with status := 0, stop? := some (stop (min (n + 1) sh.loops)) }
  | .ok 0 => sh.fail line s!"{command}: Illegal number: 0"
  | .error text => sh.fail line s!"{command}: {text}"

/-- Where a command is found, by its name. -/
def whereIs? (sh : Shell) (name : String) : Option String :=
  if name.toList.contains '/' then
    if (sh.site.find name).toOption.isSome then some name else none
  else if isShell name || (tool? name sh.site .empty []).isSome then some s!"/usr/bin/{name}"
  else none

/-- Tells what names mean. -/
def describe (sh : Shell) (line : Nat) (names : List String) : Shell :=
  names.foldl
    (fun sh name =>
      let tell (text : String) (status : Nat) : Shell :=
        let shown := sh.display line "type" (.ofText s!"{name}{text}\n")
        shown.withStatus (max sh.status status)
      if keywords.contains name then tell " is a shell keyword" 0
      else if sh.functions.any fun (n, _) => n == name then tell " is a shell function" 0
      else if specialNames.contains name then tell " is a special shell builtin" 0
      else if builtinNames.contains name then tell " is a shell builtin" 0
      else
        match sh.whereIs? name with
        | some path => tell s!" is {path}" 0
        | none => tell ": not found" 127)
    (sh.withStatus 0)

/-- Tells how a name can be called. -/
def locateCommand (sh : Shell) (line : Nat) (name : String) : Shell :=
  let known := keywords.contains name || builtinNames.contains name ||
    sh.functions.any fun (n, _) => n == name
  match if known then some name else sh.whereIs? name with
  | some text => sh.display line "command" (.ofText (text ++ "\n"))
  | none => sh.withStatus 127

/-- Declares variables of a function. Without a function there are none. -/
def declareLocal (sh : Shell) (line : Nat) (args : List String) : Shell :=
  match sh.declared? with
  | none => sh.fail line "local: not in a function"
  | some before =>
      let (set, names) := sh.setVariables args
      let declared := names.map fun name => (name, sh.binding? name)
      { set with declared? := some (declared ++ before), status := 0 }

/-- With the variables as they were before a function declared them. -/
def undeclare (sh : Shell) : Shell :=
  (sh.declared?.getD []).foldl
    (fun sh (name, value?) =>
      let others := sh.bindings.filter fun (n, _) => n != name
      { sh with bindings := (value?.map (name, ·)).toList ++ others })
    sh

/-- A command that the shell does itself and that runs no script. -/
def builtin? (sh : Shell) (line : Nat) (name : String) (args : List String) : Option Shell :=
  match name with
  | ":" | "true" | "alias" | "unalias" | "hash" | "times" | "jobs" => some (sh.withStatus 0)
  | "false" => some (sh.withStatus 1)
  | "umask" =>
      some (if args.isEmpty then sh.display line "umask" (.ofText "0022\n") else sh.withStatus 0)
  | "echo" => some (sh.display line "echo" (echoed args))
  | "printf" =>
      let d := printf (.command s!"{sh.name}: {line}: printf") args
      some (if (sh.sink? 1).isNone then sh.display line "printf" d.out else sh.after d)
  | "pwd" => some (sh.display line "pwd" (.ofText (sh.site.workingPath ++ "\n")))
  | "cd" => some (sh.changeDirectory line args)
  | "wait" => some (sh.wait args)
  | "trap" => some (sh.setTraps args)
  | "export" =>
      let (sh, names) := sh.setVariables args
      some ((sh.exportNames names).withStatus 0)
  | "readonly" => some ((sh.setVariables args).1.withStatus 0)
  | "local" => some (sh.declareLocal line args)
  | "unset" =>
      let names := (splitFlags args).2
      some { sh with
        bindings := sh.bindings.filter fun (n, _) => !names.contains n
        functions := sh.functions.filter fun (n, _) => !names.contains n
        status := 0 }
  | "set" => some ((sh.setOptions args).withStatus 0)
  | "shift" =>
      match args.head?.elim (.ok 1) numberOf with
      | .ok n =>
          if n ≤ sh.params.length then
            some { sh with params := sh.params.drop n, status := 0 }
          else some (sh.fail line "shift: can't shift that many")
      | .error text => some (sh.fail line s!"shift: {text}")
  | "test" | "[" => some (sh.test line name args)
  | "read" => some (sh.read line args)
  | "type" => some (sh.describe line args)
  | "break" => some (sh.leaveLoops line "break" args .left)
  | "continue" => some (sh.leaveLoops line "continue" args .continued)
  | "exit" =>
      match args.head?.elim (.ok sh.status) numberOf with
      | .ok code => some (sh.exit code)
      | .error text => some (sh.fail line s!"exit: {text}")
  | "return" =>
      match args.head?.elim (.ok sh.status) numberOf with
      | .ok code => some { sh with status := code % 256, stop? := some .returned }
      | .error text => some (sh.fail line s!"return: {text}")
  | _ => none

/-! ### Redirections -/

/-- With a channel that leads to a file, which is emptied unless what comes is put behind it. -/
def openFile (sh : Shell) (line channel : Nat) (append : Bool) (path : String) :
    Except Shell Shell :=
  match path with
  | "/dev/null" => .ok (sh.setSink channel (some .nowhere))
  | "/dev/stdout" => .ok (sh.setSink channel (sh.sink? 1))
  | "/dev/stderr" => .ok (sh.setSink channel (sh.sink? 2))
  | _ =>
      let place := sh.site.onDisk path
      let keeps := append && (sh.site.find path).toOption.any fun (_, n) => !n.isDirectory
      match if keeps then .ok sh.site.disk else sh.site.disk.writeAt place [] 0 with
      | .ok disk =>
          .ok ({ sh with site := { sh.site with disk := disk } }.setSink channel
            (some (.file place)))
      | .error .missing =>
          .error (sh.complain line s!"cannot create {path}: Directory nonexistent" 2)
      | .error fault =>
          .error (sh.complain line s!"cannot create {path}: {faultWords fault}" 2)

/-- With a file as input. -/
def openInput (sh : Shell) (line channel : Nat) (path : String) : Except Shell Shell :=
  match fileContent sh.site path with
  | .ok content => .ok (if channel = 0 then { sh with input := content } else sh)
  | .error .isDirectory => .ok (if channel = 0 then { sh with input := .empty } else sh)
  | .error .missing => .error (sh.complain line s!"cannot open {path}: No such file" 2)
  | .error fault => .error (sh.complain line s!"cannot open {path}: {faultWords fault}" 2)

/-- With a channel that leads where another one does, or that is closed. -/
def copyChannel (sh : Shell) (line channel : Nat) (target : String) : Except Shell Shell :=
  if target = "-" then
    .ok (if channel = 0 then { sh with input := .empty } else sh.setSink channel none)
  else
    match target.toNat? with
    | none => .error (sh.fail line "Syntax error: Bad fd number")
    | some 0 => .ok sh
    | some source =>
        match sh.sink? source with
        | some sink => .ok (sh.setSink channel (some sink))
        | none => .error (sh.complain line s!"{source}: Bad file descriptor" 2)

/-- The shell behind something done with other channels: they lead again where they did before. -/
def restoreChannels (done before : Shell) : Shell :=
  { done with sinks := before.sinks, input := before.input }

end Shell

end Workbench.Sandbox
