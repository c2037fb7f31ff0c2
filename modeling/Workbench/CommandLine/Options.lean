import Workbench.CommandLine.Grammar
import Workbench.Lang.Word
import Workbench.Net.Address
import Workbench.Pipeline.Config
import Workbench.Text.Integer

/-!
# Commands and their options

The command line names one of four commands, and each has options of its own. Asking for help or for
the version is no command, nor is a line that fits none.
-/

namespace Workbench.CommandLine

open Lang (Word)
open Net (Address)
open Pipeline (Mode Config)

/-! ### Values -/

section

variable {α : Type}

/-- Reads a path, which is not empty. -/
def readPath (set : String → α → α) : Reader α := fun text =>
  if text.isEmpty then .error .noValue else .ok (set text)

def readText (set : String → α → α) : Reader α := fun text => .ok (set text)

/-- Reads a value that not every text stands for. -/
def readSome {β : Type} (parse? : String → Option β) (set : β → α → α) : Reader α := fun text =>
  match parse? text with
  | some value => .ok (set value)
  | none => .error .badValue

def mode? (text : String) : Option Mode :=
  (Mode.parse text).toOption

def word? (text : String) : Option Word :=
  ((Text.readInteger 32 text).toOption).map (BitVec.ofInt 32)

def level? (text : String) : Option Nat :=
  ((Text.readInteger 64 text).toOption).bind fun value =>
    if 0 ≤ value ∧ value ≤ Config.maxLevel then some value.toNat else none

end

/-! ### Options -/

/-- The options of every command that compiles. -/
structure PipelineOptions where
  level : Nat := Config.standard.optimizationLevel
  quantumSafe : Bool := false
  gasOptimization : Bool := false
  deriving DecidableEq, Repr, Inhabited

/-- The settings of a pipeline under these options. -/
def PipelineOptions.config (o : PipelineOptions) : Config :=
  { Config.standard with
    optimizationLevel := o.level
    quantumSafety := o.quantumSafe
    gasOptimization := o.gasOptimization }

/-- The switches of the options of a pipeline, which are a part of other options. -/
def PipelineOptions.switches {α : Type} (update : (PipelineOptions → PipelineOptions) → α → α) :
    List (Switch α) :=
  [⟨"opt-level", some 'O', .value (readSome level? fun n => update fun o => { o with level := n })⟩,
    ⟨"quantum-safe", none, .flag (update fun o => { o with quantumSafe := true })⟩,
    ⟨"gas-opt", none, .flag (update fun o => { o with gasOptimization := true })⟩]

/-- What to compile and where to put the outcome. -/
structure CompileOptions where
  input? : Option String := none
  output? : Option String := none
  interface? : Option String := none
  mode : Mode := .release
  pipeline : PipelineOptions := {}
  json : Bool := false
  deriving DecidableEq, Repr, Inhabited

def CompileOptions.grammar : Grammar CompileOptions where
  switches :=
    [⟨"input", some 'i', .value (readPath fun s o => { o with input? := some s })⟩,
      ⟨"output", some 'o', .value (readPath fun s o => { o with output? := some s })⟩,
      ⟨"abi", none, .value (readPath fun s o => { o with interface? := some s })⟩,
      ⟨"mode", none, .value (readSome mode? fun m o => { o with mode := m })⟩,
      ⟨"json", none, .flag fun o => { o with json := true }⟩] ++
    PipelineOptions.switches fun f o => { o with pipeline := f o.pipeline }
  positions := []
  required := 0
  rest? := none

/-- Which project to check. -/
structure CheckOptions where
  directory : String := "."
  mode : Mode := .test
  pipeline : PipelineOptions := {}
  deriving DecidableEq, Repr, Inhabited

def CheckOptions.grammar : Grammar CheckOptions where
  switches :=
    ⟨"mode", none, .value (readSome mode? fun m o => { o with mode := m })⟩ ::
      PipelineOptions.switches fun f o => { o with pipeline := f o.pipeline }
  positions := [readPath fun s o => { o with directory := s }]
  required := 0
  rest? := none

/-- What to run, and the world to run it in. -/
structure RunOptions where
  input : String := ""
  function? : Option String := none
  /-- Whether every request to the host is shown. -/
  trace : Bool := false
  caller : Word := 1
  timestamp : Word := 0
  mode : Mode := .test
  pipeline : PipelineOptions := {}
  args : List String := []
  deriving DecidableEq, Repr, Inhabited

def RunOptions.grammar : Grammar RunOptions where
  switches :=
    [⟨"function", some 'f', .value (readText fun s o => { o with function? := some s })⟩,
      ⟨"trace", none, .flag fun o => { o with trace := true }⟩,
      ⟨"caller", none, .value (readSome word? fun w o => { o with caller := w })⟩,
      ⟨"timestamp", none, .value (readSome word? fun w o => { o with timestamp := w })⟩,
      ⟨"mode", none, .value (readSome mode? fun m o => { o with mode := m })⟩] ++
    PipelineOptions.switches fun f o => { o with pipeline := f o.pipeline }
  positions := [readPath fun s o => { o with input := s }]
  required := 1
  rest? := some fun args o => { o with args := args }

/-- Which project to serve. -/
structure ServeOptions where
  project : String := "."
  settings? : Option String := none
  listen? : Option Address := none
  deriving DecidableEq, Repr, Inhabited

def ServeOptions.grammar : Grammar ServeOptions where
  switches :=
    [⟨"project", none, .value (readPath fun s o => { o with project := s })⟩,
      ⟨"config", none, .value (readPath fun s o => { o with settings? := some s })⟩,
      ⟨"listen", none, .value (readSome Address.parse? fun a o => { o with listen? := some a })⟩]
  positions := []
  required := 0
  rest? := none

/-! ### Command lines -/

inductive Invocation where
  | compile (options : CompileOptions)
  | check (options : CheckOptions)
  | run (options : RunOptions)
  | serve (options : ServeOptions)
  deriving DecidableEq, Repr

/-- The command of a name, with its arguments; none if there is no such command. -/
def command? (name : String) (arguments : List String) : Option (Except Usage Invocation) :=
  match name with
  | "compile" => some ((CompileOptions.grammar.read {} arguments).map .compile)
  | "check" => some ((CheckOptions.grammar.read {} arguments).map .check)
  | "run" => some ((RunOptions.grammar.read {} arguments).map .run)
  | "serve" => some ((ServeOptions.grammar.read {} arguments).map .serve)
  | _ => none

/-- Whether a name is that of a command or of the request for help. -/
def isCommand (name : String) : Bool :=
  name == "help" || (command? name []).isSome

/-- The answer to a request for help, which can name a command. -/
def helpOn : List String → Usage
  | [] => .help
  | [name] => if isCommand name then .help else .unknownCommand
  | _ => .unknownCommand

/-- Reads a command line. Behind two dashes, at the start, no argument is a command any more. -/
def Invocation.read (plain : Bool) : List String → Except Usage Invocation
  | [] => .error .nothingGiven
  | argument :: others =>
      if plain then .error (if isCommand argument then .unknownArgument else .unknownCommand)
      else if argument = "help" then .error (helpOn others)
      else if argument = "--" then Invocation.read true others
      else
        match command? argument others, longForm? argument, shortForm? argument with
        | some result, _, _ => result
        | none, some ("help", none), _ => .error .help
        | none, some ("version", none), _ => .error .version
        | none, some (name, _), _ =>
            .error (if name = "help" ∨ name = "version" then .unneededValue else .unknownArgument)
        | none, none, some ('h' :: _) => .error .help
        | none, none, some ('V' :: _) => .error .version
        | none, none, some _ => .error .unknownArgument
        | none, none, none => .error .unknownCommand

end Workbench.CommandLine
