/-!
# Grammars of command lines

The arguments of a command are switches, which go by name, and values, which go by position. A
switch stands in long form behind two dashes or in short form behind one; its value is attached or
is the next argument. Behind two dashes alone nothing is a switch. A command can also take a rest:
once its positions are filled, the first argument that is no switch of the command begins it, and
everything behind belongs to it.

A value is read when it is known to be complete, which is at the next switch or position. So the
first fault in a line wins, but an argument that fits nowhere wins over a bad value right before it.
-/

namespace Workbench.CommandLine

/-! ### What can be wrong -/

/-- Why a command line is not carried out. -/
inductive Usage where
  | help
  | version
  /-- Nothing was said at all. -/
  | nothingGiven
  | unknownCommand
  | unknownArgument
  /-- A value that cannot be read. -/
  | badValue
  /-- A switch without its value, or an empty path. -/
  | noValue
  /-- A value for a switch that takes none. -/
  | unneededValue
  | missingArgument
  | repeated
  deriving DecidableEq, Repr, Inhabited

/-- What a program tells its caller about a line that it does not carry out. -/
def Usage.exitCode : Usage → Nat
  | help | version => 0
  | _ => 2

/-! ### Grammars -/

/-- Reads a text into the options of a command. -/
abbrev Reader (α : Type) := String → Except Usage (α → α)

inductive Effect (α : Type) where
  | flag (set : α → α)
  | value (read : Reader α)
  | help

structure Switch (α : Type) where
  long : String
  short? : Option Char
  effect : Effect α

structure Grammar (α : Type) where
  switches : List (Switch α)
  positions : List (Reader α)
  /-- How many of the positions have to be filled. -/
  required : Nat
  /-- What takes the arguments behind the positions, if the command has a rest. -/
  rest? : Option (List String → α → α)

/-- The switch that every command has. -/
def helpSwitch {α : Type} : Switch α := ⟨"help", some 'h', .help⟩

namespace Grammar

variable {α : Type} (g : Grammar α)

def long? (name : String) : Option (Switch α) :=
  (helpSwitch :: g.switches).find? fun s => s.long == name

def short? (name : Char) : Option (Switch α) :=
  (helpSwitch :: g.switches).find? fun s => s.short? == some name

end Grammar

/-! ### Forms of arguments -/

/-- The name of an argument in long form, with the value that is attached to it. -/
def longForm? (argument : String) : Option (String × Option String) :=
  match argument.toList with
  | '-' :: '-' :: c :: rest =>
      let name := (c :: rest).takeWhile (· != '=')
      match (c :: rest).drop name.length with
      | [] => some (String.ofList name, none)
      | _ :: value => some (String.ofList name, some (String.ofList value))
  | _ => none

def shortForm? (argument : String) : Option (List Char) :=
  match argument.toList with
  | '-' :: '-' :: _ => none
  | '-' :: c :: rest => some (c :: rest)
  | _ => none

/-- The value that is attached to a short name, by nothing or by an equals sign. -/
def attached? : List Char → Option String
  | [] => none
  | '=' :: value => some (String.ofList value)
  | value => some (String.ofList value)

/-! ### Reading -/

/-- An argument whose value is not read yet. -/
inductive Pending (α : Type) where
  /-- A switch that waits for its value. -/
  | awaits (name : String) (read : Reader α)
  /-- A value of a switch or, without a name, of a position. -/
  | holds (name? : Option String) (read : Reader α) (text : String)

structure Progress (α : Type) where
  options : α
  /-- The switches that were given. -/
  seen : List String
  pending? : Option (Pending α)
  filled : Nat

namespace Progress

variable {α : Type} (p : Progress α)

/-- Notes that a switch was given, which can only be once. -/
def note (name : String) : Except Usage (Progress α) :=
  if p.seen.contains name then .error .repeated else .ok { p with seen := name :: p.seen }

/-- Reads what is pending. -/
def settle : Except Usage (Progress α) :=
  match p.pending? with
  | none => .ok p
  | some (.awaits ..) => .error .noValue
  | some (.holds name? read text) => do
      let p ← match name? with
        | some name => p.note name
        | none => .ok p
      let set ← read text
      return { p with options := set p.options, pending? := none }

/-- Whether a switch waits for its value. -/
def awaitsValue : Bool :=
  match p.pending? with
  | some (.awaits ..) => true
  | _ => false

/-- Takes a switch with the value that is attached to it. -/
def take (switch : Switch α) (value? : Option String) : Except Usage (Progress α) :=
  match switch.effect, value? with
  | .help, none => do
      let _ ← p.settle
      throw .help
  | .flag set, none => do
      let p ← (← p.settle).note switch.long
      return { p with options := set p.options }
  | .value read, none => do
      return { ← p.settle with pending? := some (.awaits switch.long read) }
  | .value read, some text => do
      Progress.settle { ← p.settle with pending? := some (.holds (some switch.long) read text) }
  | _, some _ => throw .unneededValue

end Progress

namespace Grammar

variable {α : Type} (g : Grammar α)

/-- Takes the switches of an argument in short form. One that takes a value takes what is left. -/
def takeShort (p : Progress α) : List Char → Except Usage (Progress α)
  | [] => .ok p
  | c :: rest =>
      match g.short? c with
      | none => .error .unknownArgument
      | some switch =>
          match switch.effect with
          | .value _ => p.take switch (attached? rest)
          | _ => do takeShort (← p.take switch none) rest

/-- Whether the next argument can begin the rest. -/
def atRest (p : Progress α) : Bool :=
  g.rest?.isSome && g.positions.length ≤ p.filled


/-- Takes the arguments of a command, from left to right; behind two dashes they are `plain`. -/
def scan (plain : Bool) (p : Progress α) : List String → Except Usage (Progress α)
  | [] => p.settle
  | argument :: others =>
      let place (_ : Unit) : Except Usage (Progress α) :=
        match g.positions[p.filled]?, g.rest? with
        | some read, _ => do
            let p ← p.settle
            scan plain
              { p with pending? := some (.holds none read argument), filled := p.filled + 1 } others
        | none, some take => do
            let p ← p.settle
            return { p with options := take (argument :: others) p.options }
        | none, none => .error .unknownArgument
      let value (_ : Unit) : Except Usage (Progress α) :=
        match p.pending? with
        | some (.awaits name read) =>
            scan plain { p with pending? := some (.holds (some name) read argument) } others
        | _ => place ()
      if plain then place ()
      else if argument = "--" then scan true p others
      else
        match longForm? argument, shortForm? argument with
        | some (name, value?), _ =>
            match g.long? name with
            | some switch => do scan plain (← p.take switch value?) others
            | none => if g.atRest p then value () else .error .unknownArgument
        | none, some names =>
            if g.atRest p && names.any fun c => (g.short? c).isNone then value ()
            else do scan plain (← g.takeShort p names) others
        | none, none => value ()

/-- The options that the arguments of a command give, from those that hold otherwise. -/
def read (start : α) (arguments : List String) : Except Usage α := do
  let p ← g.scan false ⟨start, [], none, 0⟩ arguments
  if p.filled < g.required then throw .missingArgument
  return p.options

end Grammar

end Workbench.CommandLine
