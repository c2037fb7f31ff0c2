import Workbench.Sandbox.Shell

/-!
# Running scripts

A shell carries out a script, one command after another, and waits for each unless it runs in the
background. It ends with the script, at an `exit`, at a signal that is not handled, or never.

Fuel bounds the steps of a run. A script that takes more of them than there is fuel is taken for one
that never ends.
-/

namespace Workbench.Sandbox.Shell

open Files (Fault)
open Wasm (Bytes)

/-! ### Copies of a shell -/

/-- The shell behind a copy of it that has ended: only what was written, the disk, the time and the
exit code stay. -/
def rejoin (sh child : Shell) : Shell :=
  { sh with
    site := { sh.site with disk := child.site.disk }
    log := child.log
    clock := child.clock
    status := child.status
    stop? := match child.stop? with
      | some .never => some .never
      | some (.signalled n) => some (.signalled n)
      | _ => none }

/-- A copy of the shell, for which only signals that are ignored stay trapped. -/
def copied (sh : Shell) : Shell :=
  { sh with jobs := [], traps := sh.traps.filter fun (_, action) => action.isEmpty }

def copiedIntoPipe (sh : Shell) : Shell :=
  let level := sh.depth + 1
  { sh.copied.setSink 1 (some (.pipe level)) with depth := level }

/-- What a copy wrote into its pipe, and the rest of its log. -/
def takePiped (child : Shell) : Output × List Written :=
  let sink := Sink.pipe child.depth
  (writtenTo sink (child.log.foldl (fun t w => max t w.time) child.clock) child.log,
    child.log.filter fun w => w.sink ≠ sink)

/-- The text of bytes without line ends at its end. -/
def outputText (bytes : Bytes) : String :=
  let text := (Text.decodeLossy (bytes.filter (· != 0))).1
  String.ofList (text.toList.reverse.dropWhile (· == '\n')).reverse

def killTargets (args : List String) : Except String (String × List String) :=
  match args with
  | "-s" :: signal :: targets =>
      match signalName? signal with
      | some name => .ok (name, targets)
      | none => .error s!"invalid signal number or name: {signal}"
  | "--" :: targets => .ok ("TERM", targets)
  | first :: targets =>
      match first.toList with
      | '-' :: c :: rest =>
          match signalName? (String.ofList (c :: rest)) with
          | some name => .ok (name, targets)
          | none => .error s!"Illegal option -{c}"
      | _ => .ok ("TERM", args)
  | [] => .ok ("TERM", [])

/-- The words on how to use `kill`. -/
def killUsage : String :=
  "kill: Usage: kill [-s sigspec | -signum | -sigspec] [pid | job]... or\nkill -l [exitstatus]"

/-- The shell behind another one that it started: a signal that ended that one is told. -/
def afterShell (sh child : Shell) : Shell :=
  let back := { sh with
    site := { sh.site with disk := child.site.disk }
    log := child.log
    clock := child.clock }
  match child.stop? with
  | some .never => back.forEver
  | some (.signalled n) => (back.emit 2 (signalText n)).withStatus (128 + n)
  | _ => back.withStatus child.status

/-- The options in front of the arguments of a shell, and the others. -/
def splitOptions : List String → List Char × List String
  | arg :: rest =>
      match arg.toList with
      | '-' :: c :: letters =>
          let (more, rest) := splitOptions rest
          (c :: letters ++ more, rest)
      | _ => ([], arg :: rest)
  | [] => ([], [])

/-- What the shell does for every command that it runs, if that is asked for: it shows it. -/
def trace (sh : Shell) (sets : List (String × String)) (fields : List String) : Shell :=
  if sh.options.contains 'x' then
    let parts := sets.map (fun (name, value) => s!"{name}={value}") ++ fields
    sh.emit 2 (.ofText ("+ " ++ " ".intercalate parts ++ "\n"))
  else sh

/-- Ends a script at a command that failed, if that is asked for. -/
def checked (sh : Shell) : Shell :=
  if sh.options.contains 'e' && sh.status ≠ 0 && sh.stop?.isNone then sh.exit sh.status else sh

/-- With an option set as it is in another shell. -/
def withOptionOf (sh before : Shell) (option : Char) : Shell :=
  let others := sh.options.filter (· != option)
  { sh with options := if before.options.contains option then others ++ [option] else others }

/-- The shell behind a loop that a command in it leaves, if one does. -/
def leaveLoop (sh : Shell) : Shell :=
  match sh.stop? with
  | some (.left 1) => { sh with stop? := none }
  | some (.left n) => { sh with stop? := some (.left (n - 1)) }
  | some (.continued n) => { sh with stop? := some (.continued (n - 1)) }
  | _ => sh

/-! ### Words, redirections, commands and scripts -/

mutual

/-- The value of a parameter behind its operator. -/
def parameterText (fuel : Nat) (sh : Shell) (line : Nat) (name operator operand : String)
    (quoted : Bool) : Shell × String :=
  match fuel with
  | 0 => (sh.forEver, "")
  | fuel + 1 =>
      let found? := sh.value? name
      let isEmpty := if operator.startsWith ":" then found?.all (·.isEmpty) else found?.isNone
      let expand (sh : Shell) : Shell × String :=
        let word? := if quoted then Word.ofQuotedText operand.toList else Word.ofText operand.toList
        match word? with
        | .ok w => wordText fuel sh line w
        | .error text => (sh.fail line s!"Syntax error: {text}", "")
      match operator with
      | "" =>
          if found?.isNone && sh.options.contains 'u' && name != "@" && name != "*" then
            (sh.fail line s!"{name}: parameter not set", "")
          else (sh, found?.getD "")
      | "-" | ":-" => if isEmpty then expand sh else (sh, found?.getD "")
      | "+" | ":+" => if isEmpty then (sh, "") else expand sh
      | "=" | ":=" =>
          if isEmpty then
            let (sh, value) := expand sh
            (sh.setVariable name value, value)
          else (sh, found?.getD "")
      | "?" | ":?" =>
          if isEmpty then
            let (sh, text) := expand sh
            let standard :=
              if operator = ":?" then "parameter not set or null" else "parameter not set"
            (sh.fail line s!"{name}: {if operand.isEmpty then standard else text}", "")
          else (sh, found?.getD "")
      | "#" | "##" | "%" | "%%" =>
          let (sh, pattern) := expand sh
          (sh, trim operator pattern (found?.getD ""))
      | _ =>
          if operator = lengthOperator then (sh, toString (found?.getD "").length)
          else (sh.fail line "Bad substitution", "")

def fragmentText (fuel : Nat) (sh : Shell) (line : Nat) (f : Fragment) : Shell × String :=
  match fuel with
  | 0 => (sh.forEver, "")
  | fuel + 1 =>
      match f with
      | .text text => (sh, text)
      | .parameter name operator operand quoted =>
          parameterText fuel sh line name operator operand quoted
      | .output script _ =>
          let child := runText fuel { sh.copiedIntoPipe with status := 0 } line "" script
          let (piped, log) := child.takePiped
          let back := sh.rejoin { child with log := log }
          let back := { back with
            stop? := if piped.isEndless then some .never else back.stop? }
          (back, outputText piped.start)
      | .arithmetic expression _ =>
          match Word.ofQuotedText expression.toList with
          | .error text => (sh.fail line s!"Syntax error: {text}", "")
          | .ok w =>
              let (sh, text) := wordText fuel sh line w
              if sh.stop?.isSome then (sh, "")
              else
                match (Arithmetic.parse text).bind fun e => e.eval.run sh.bindings with
                | .ok (value, bindings) => ({ sh with bindings := bindings }, toString value)
                | .error problem => (sh.fail line (problem.text text), "")

/-- The text that a word stands for, in one piece. -/
def wordText (fuel : Nat) (sh : Shell) (line : Nat) (w : Word) : Shell × String :=
  match fuel with
  | 0 => (sh.forEver, "")
  | fuel + 1 =>
      w.fragments.foldl
        (fun (sh, before) f =>
          if sh.stop?.isSome then (sh, before)
          else
            let (sh, text) := fragmentText fuel sh line f
            (sh, before ++ text))
        (sh, "")

def wordFields (fuel : Nat) (sh : Shell) (line : Nat) (w : Word) : Shell × List String :=
  match fuel with
  | 0 => (sh.forEver, [])
  | fuel + 1 =>
      let add (sh : Shell) (fields : List OpenField) (f : Fragment) :
          Shell × List OpenField :=
        match f with
        | .text text => (sh, extend fields text w.quoted)
        | .parameter "@" "" _ true =>
            match sh.params with
            | [] => (sh, fields)
            | first :: rest =>
                (sh, extend fields first true ++ rest.map fun p => (p, true))
        | .parameter "@" "" _ false | .parameter "*" "" _ false =>
            match sh.params with
            | [] => (sh, fields)
            | first :: rest =>
                (sh, rest.foldl (fun fields p => extendCut (fields ++ [("", false)]) p)
                  (extendCut fields first))
        | .parameter _ _ _ quoted | .output _ quoted | .arithmetic _ quoted =>
            let (sh, text) := fragmentText fuel sh line f
            if sh.stop?.isSome then (sh, [])
            else if quoted then (sh, extend fields text true)
            else (sh, extendCut fields text)
      let onlyParams := w.fragments.filter (· != .text "") = [.parameter "@" "" "" true]
      let (sh, fields) := w.fragments.foldl
        (fun (sh, fields) f => if sh.stop?.isSome then (sh, fields) else add sh fields f)
        (sh, ([] : List OpenField))
      let fields := if onlyParams && sh.params.isEmpty then [] else fields
      let fields :=
        if fields.isEmpty && w.quoted && !onlyParams then [("", true)] else fields
      (sh, (closeFields fields).flatMap sh.expandPattern)

def fieldsOf (fuel : Nat) (sh : Shell) (line : Nat) (words : List Word) : Shell × List String :=
  match fuel with
  | 0 => (sh.forEver, [])
  | fuel + 1 =>
      words.foldl
        (fun (sh, before) w =>
          if sh.stop?.isSome then (sh, before)
          else
            let (sh, fields) := wordFields fuel sh line w
            (sh, before ++ fields))
        (sh, [])

/-- The values of variables that are set in order. -/
def settingsOf (fuel : Nat) (sh : Shell) (line : Nat) (sets : List (String × Word)) :
    Shell × List (String × String) :=
  match fuel with
  | 0 => (sh.forEver, [])
  | fuel + 1 =>
      let (after, found) := sets.foldl
        (fun (sh, before) (name, w) =>
          if sh.stop?.isSome then (sh, before)
          else
            let (sh, value) := wordText fuel sh line w
            (sh.setVariable name value, before ++ [(name, value)]))
        (sh, [])
      ({ after with bindings := sh.bindings }, found)

/-- The shell with its channels redirected, or with the complaint that one cannot be. -/
def redirect (fuel : Nat) (sh : Shell) (line : Nat) (redirections : List Redirection) :
    Except Shell Shell :=
  match fuel with
  | 0 => .error sh.forEver
  | fuel + 1 =>
      redirections.foldlM
        (fun (sh : Shell) r =>
          let act (w : Word) (use : Shell → String → Except Shell Shell) : Except Shell Shell :=
            let (sh, text) := wordText fuel sh line w
            if sh.stop?.isSome then .error sh else use sh text
          match r with
          | .toFile channel append w => act w fun sh path => sh.openFile line channel append path
          | .fromFile channel w => act w fun sh path => sh.openInput line channel path
          | .fromText channel w =>
              act w fun sh text =>
                .ok (if channel = 0 then { sh with input := .ofText text } else sh)
          | .duplicate channel w => act w fun sh target => sh.copyChannel line channel target)
        sh

/-- Runs a program that is not part of the shell; `label` is what complaints begin with. -/
def runProgram (fuel : Nat) (sh : Shell) (line : Nat) (label name : String)
    (args : List String) : Shell :=
  match fuel with
  | 0 => sh.forEver
  | fuel + 1 =>
      let tool := programName name
      if isShell tool then
        let child : Shell :=
          { fresh sh.site name sh.input with
            bindings := sh.bindings.filter fun (n, _) => sh.exported.contains n
            exported := sh.exported
            sinks := sh.sinks
            log := sh.log
            depth := sh.depth
            clock := sh.clock }
        sh.afterShell (runArguments fuel child args)
      else if tool.toList.contains '/' || tool.isEmpty then
        match sh.site.find tool with
        | .ok _ => sh.complain line s!"{label}{name}: Permission denied" 126
        | .error _ =>
            if tool.isEmpty then sh.complain line s!"{label}{name}: Permission denied" 127
            else sh.complain line s!"{label}{name}: not found" 127
      else
        match tool? tool sh.site sh.input args with
        | some deed => sh.after deed
        | none => sh.complain line s!"{label}{name}: not found" 127

/-- A shell that has carried out what its arguments say. -/
def runArguments (fuel : Nat) (sh : Shell) (args : List String) : Shell :=
  match fuel with
  | 0 => sh.forEver
  | fuel + 1 =>
      let (options, rest) := splitOptions args
      let sh := { sh with options := options.filter fun c => c != 'c' && c != 's' }
      let complete (sh : Shell) (text : String) : Shell :=
        runEnd fuel (runText fuel sh 1 "" text)
      if options.contains 'c' then
        match rest with
        | [] => sh.complain 0 "-c requires an argument" 2
        | [text] => complete sh text
        | text :: name :: params => complete { sh with name := name, params := params } text
      else
        match rest with
        | path :: params =>
            match fileContent sh.site path with
            | .error .isDirectory => sh
            | .error _ => sh.complain 0 s!"cannot open {path}: No such file" 2
            | .ok content =>
                complete { sh with name := path, params := params }
                  (Text.decodeLossy content.start).1
        | [] => complete { sh with input := .empty } (Text.decodeLossy sh.input.start).1

/-- Does at the end of a shell what is to be done there. -/
def runEnd (fuel : Nat) (sh : Shell) : Shell :=
  match fuel with
  | 0 => sh.forEver
  | fuel + 1 =>
      match sh.trap? "EXIT", sh.stop? with
      | none, _ | some _, some .never | some _, some (.signalled _) => sh
      | some action, _ =>
          let last := runText fuel { sh with stop? := none, traps := [] } 1 "" action
          if last.stop?.isSome then last else last.withStatus sh.status

/-- Runs the text of a script line by line. A complaint about a line comes when it is reached. -/
def runText (fuel : Nat) (sh : Shell) (line : Nat) (label text : String) : Shell :=
  match fuel with
  | 0 => sh.forEver
  | fuel + 1 =>
      let (lines, complaint?) := Script.parse text
      let done := lines.foldl
        (fun sh script => if sh.stop?.isSome then sh else runScript fuel sh script) sh
      match complaint?, done.stop? with
      | some (wrong, words), none =>
          let label := if wrong = line then "" else label
          done.fail wrong s!"{label}Syntax error: {words}"
      | _, _ => done

/-- Sends a signal to the shell itself. -/
def signal (fuel : Nat) (sh : Shell) (name : String) : Shell :=
  match fuel with
  | 0 => sh.forEver
  | fuel + 1 =>
      match name, sh.trap? name with
      | "EXIT", _ | "CHLD", none | "CONT", none => sh.withStatus 0
      | "STOP", _ => sh.forEver
      | "KILL", _ | _, none => { sh with stop? := some (.signalled (signalNumber name)) }
      | _, some action =>
          let done := runText fuel (sh.withStatus 0) 1 "" action
          if done.stop?.isSome then done else done.withStatus 0

def kill (fuel : Nat) (sh : Shell) (line : Nat) (args : List String) : Shell :=
  match fuel with
  | 0 => sh.forEver
  | fuel + 1 =>
      match args, killTargets args with
      | ["-l", number], _ =>
          sh.display line "kill" (.ofText ((signalName? number).getD number ++ "\n"))
      | _, .error text => sh.complain line s!"kill: {text}" 2
      | _, .ok (_, []) => sh.complain line killUsage 2
      | _, .ok (name, targets) =>
          targets.foldl
            (fun sh target =>
              if sh.stop?.isSome then sh
              else if target = toString processId then signal fuel sh name
              else if sh.jobs.any fun job => toString job.process == target then
                (sh.endJob (target.toNat?.getD 0) (signalNumber name)).withStatus 0
              else if target.startsWith "%" then
                sh.complain line s!"kill: No such job: {target}" 2
              else if target.isEmpty || !target.all Char.isDigit then
                sh.complain line s!"kill: Illegal number: {target}" 2
              else sh.complain line "kill: No such process\n" 1)
            (sh.withStatus 0)

/-- Runs a function with arguments for parameters. Variables that it declares for itself have their
old values again behind it. -/
def runFunction (fuel : Nat) (sh : Shell) (body : Script) (args : List String) : Shell :=
  match fuel with
  | 0 => sh.forEver
  | fuel + 1 =>
      let inside := { sh with params := args, loops := 0, declared? := some [] }
      let done := runScript fuel inside body
      { done.undeclare with
        params := sh.params
        loops := sh.loops
        declared? := sh.declared?
        stop? := if done.stop? = some .returned then none else done.stop? }

def runCommand (fuel : Nat) (sh : Shell) (line : Nat) (name : String) (args : List String) :
    Shell :=
  match fuel with
  | 0 => sh.forEver
  | fuel + 1 =>
      match sh.functions.find? fun (n, _) => n == name with
      | some (_, body) => runFunction fuel sh body args
      | none =>
          match name with
          | "kill" => kill fuel sh line args
          | "eval" => runText fuel (sh.withStatus 0) line "eval: " (" ".intercalate args)
          | "." =>
              match args with
              | [] => sh.withStatus 0
              | path :: _ =>
                  match fileContent sh.site path with
                  | .ok content =>
                      let done := runText fuel (sh.withStatus 0) line ""
                        (Text.decodeLossy content.start).1
                      { done with
                        stop? := if done.stop? = some .returned then none else done.stop? }
                  | .error _ => sh.fail line s!".: {path}: not found"
          | "command" =>
              match args with
              | [] => sh.withStatus 0
              | "-v" :: name :: _ => sh.locateCommand line name
              | "-v" :: [] => sh.withStatus 0
              | name :: args => runCommand fuel { sh with functions := [] } line name args
          | "exec" =>
              match args with
              | [] => sh.withStatus 0
              | name :: args =>
                  let done := runProgram fuel sh line "exec: " name args
                  if done.stop?.isSome then done
                  else { done with stop? := some .exited, traps := [] }
          | _ =>
              match sh.builtin? line name args with
              | some done => done
              | none => runProgram fuel sh line "" name args

/-- Runs a simple command: words are replaced first, then come its redirections. -/
def runSimple (fuel : Nat) (sh : Shell) (line : Nat) (sets : List (String × Word))
    (words : List Word) (redirections : List Redirection) : Shell :=
  match fuel with
  | 0 => sh.forEver
  | fuel + 1 =>
      let (sh, fields) := fieldsOf fuel (if words.isEmpty then sh.withStatus 0 else sh) line words
      if sh.stop?.isSome then sh
      else
        let (sh, settings) := settingsOf fuel sh line sets
        if sh.stop?.isSome then sh
        else
          let sh := sh.trace settings fields
          let assign (sh : Shell) : Shell :=
            settings.foldl (fun sh (name, value) => sh.setVariable name value) sh
          match fields with
          | [] =>
              match redirect fuel sh line redirections with
              | .error failed => failed.restoreChannels sh
              | .ok ready => (assign (ready.restoreChannels sh)).checked
          | name :: args =>
              let special := specialNames.contains name
              match redirect fuel sh line redirections with
              | .error failed =>
                  let failed := failed.restoreChannels sh
                  if special && failed.stop?.isNone then failed.exit failed.status
                  else failed.checked
              | .ok ready =>
                  let ready := if settings.isEmpty then ready
                    else (assign ready).exportNames (if special then [] else settings.map (·.1))
                  let done := runCommand fuel ready line name args
                  let done := if name = "exec" && args.isEmpty then done
                    else { done with
                      sinks := sh.sinks
                      input := if redirections.isEmpty then done.input else sh.input }
                  let done := { done with functions :=
                    if name = "command" then sh.functions else done.functions }
                  let done := if special || settings.isEmpty then done
                    else { done with bindings := sh.bindings, exported := sh.exported }
                  done.checked

/-- Runs a loop behind a round with a given exit code. -/
def runLoop (fuel : Nat) (sh : Shell) (whileTrue : Bool) (cond body : Script) (last : Nat) :
    Shell :=
  match fuel with
  | 0 => sh.forEver
  | fuel + 1 =>
      let tested := runTested fuel sh cond
      match tested.stop? with
      | some _ => tested.leaveLoop
      | none =>
          if (tested.status = 0) = whileTrue then
            let done := runScript fuel tested body
            match done.stop? with
            | none | some (.continued 1) =>
                runLoop fuel { done with stop? := none } whileTrue cond body done.status
            | some _ => done.leaveLoop
          else tested.withStatus last

def runForEach (fuel : Nat) (sh : Shell) (name : String) (body : Script) : List String → Shell
  | [] => sh
  | value :: rest =>
      match fuel with
      | 0 => sh.forEver
      | fuel + 1 =>
          let done := runScript fuel (sh.setVariable name value) body
          match done.stop? with
          | none | some (.continued 1) =>
              runForEach fuel { done with stop? := none } name body rest
          | some _ => done.leaveLoop

/-- Runs the first case of which a pattern fits. -/
def runCases (fuel : Nat) (sh : Shell) (line : Nat) (subject : String)
    (cases : List (List Word × Script)) : Shell :=
  match fuel with
  | 0 => sh.forEver
  | fuel + 1 =>
      match cases with
      | [] => sh.withStatus 0
      | (patterns, body) :: rest =>
          let fit := patterns.any fun w =>
            let (_, text) := wordText fuel sh line w
            if w.quoted then text == subject else fitsPattern text subject
          if fit then runScript fuel (sh.withStatus 0) body
          else runCases fuel sh line subject rest

/-- Runs a script whose failure is looked at, so that it ends nothing. -/
def runTested (fuel : Nat) (sh : Shell) (script : Script) : Shell :=
  match fuel with
  | 0 => sh.forEver
  | fuel + 1 =>
      let quiet := { sh with options := sh.options.filter (· != 'e') }
      (runScript fuel quiet script).withOptionOf sh 'e'

def runScript (fuel : Nat) (sh : Shell) (script : Script) : Shell :=
  match fuel with
  | 0 => sh.forEver
  | fuel + 1 =>
      if sh.stop?.isSome then sh
      else
        match script with
        | .nothing => sh
        | .command line sets words redirections =>
            runSimple fuel sh line sets words redirections
        | .redirected line body redirections =>
            match redirect fuel sh line redirections with
            | .error failed => (failed.restoreChannels sh).checked
            | .ok ready => (runScript fuel ready body).restoreChannels sh
        | .subshell body =>
            let child := runEnd fuel (runScript fuel sh.copied body)
            (sh.rejoin child).checked
        | .ifThen cond yes no =>
            let tested := runTested fuel sh cond
            if tested.stop?.isSome then tested
            else if tested.status = 0 then runScript fuel tested yes
            else runScript fuel (tested.withStatus 0) no
        | .loop whileTrue cond body =>
            let inside := { sh with loops := sh.loops + 1 }
            { runLoop fuel inside whileTrue cond body 0 with loops := sh.loops }
        | .forEach line name words? body =>
            let (sh, values) := match words? with
              | some words => fieldsOf fuel sh line words
              | none => (sh, sh.params)
            if sh.stop?.isSome then sh
            else
              let inside := { sh with loops := sh.loops + 1, status := 0 }
              { runForEach fuel inside name body values with loops := sh.loops }
        | .choose line subject cases =>
            let (sh, text) := wordText fuel sh line subject
            if sh.stop?.isSome then sh else runCases fuel sh line text cases
        | .define name body =>
            { sh with
              functions := (name, body) :: sh.functions.filter fun (n, _) => n != name
              status := 0 }
        | .pipe left right =>
            let first := runScript fuel sh.copiedIntoPipe left
            let (piped, log) := first.takePiped
            let second := runScript fuel
              { sh.copied with input := piped, log := log, site := first.site } right
            let stuck := first.stop? = some .never && !piped.isEndless
            let joined := sh.rejoin second
            { joined with
              clock := max first.clock second.clock
              stop? := if stuck then some .never else joined.stop? }.checked
        | .negate body =>
            let done := runTested fuel sh body
            done.withStatus (if done.status = 0 then 1 else 0)
        | .both left right =>
            let first := runTested fuel sh left
            if first.stop?.isNone && first.status = 0 then runScript fuel first right else first
        | .either left right =>
            let first := runTested fuel sh left
            if first.stop?.isSome || first.status = 0 then first else runScript fuel first right
        | .inOrder left right => runScript fuel (runScript fuel sh left) right
        | .background body =>
            let process := processId + sh.started + 1
            let child := runScript fuel { sh.copied with process := process, input := .empty } body
            let job : Job :=
              { process := process
                ends? := if child.stop? = some .never then none else some child.clock
                status := child.status
                signal? := none }
            { sh with
              site := { sh.site with disk := child.site.disk }
              log := child.log
              jobs := sh.jobs ++ [job]
              started := sh.started + 1
              status := 0 }

end

end Workbench.Sandbox.Shell
