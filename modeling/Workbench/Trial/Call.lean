import Workbench.Codegen.Interface
import Workbench.Codegen.Linking
import Workbench.Text.Integer
import Workbench.Trial.World

/-!
# Trial calls

A trial call picks a function from the interface of a compiled contract, reads the arguments that
its inputs ask for and runs the module against a world in memory.
-/

namespace Workbench.Trial

open Lang (Ty Word)
open Codegen (InterfaceValue InterfaceEntry)
open Text (IntegerFault)
open Wasm (Module Trap)
open Wasm.Instance (Ending)

/-! ### Problems -/

/-- Why a trial call has no result. -/
inductive Problem where
  | noSuchFunction (name : String) (available : List String)
  | nothingToCall
  | ambiguous (available : List String)
  | wrongCount (function : String) (expected given : Nat)
  | badTruth (input text : String)
  | badNumber (input text : String) (fault : IntegerFault)
  | unlinkable
  | trapped (function : String) (trap : Trap)
  /-- The call did not come to its end. -/
  | unfinished (function : String)
  deriving DecidableEq, Repr, Inhabited

def listed (names : List String) : String :=
  ", ".intercalate names

/-- The wording of a problem and of what caused it, outermost first. -/
def Problem.chain : Problem → List String
  | noSuchFunction name available =>
      [s!"no public function `{name}` (available: {listed available})"]
  | nothingToCall => ["the contract has no public functions"]
  | ambiguous available =>
      [s!"several public functions; pick one with --function ({listed available})"]
  | wrongCount function expected given =>
      [s!"`{function}` takes {expected} argument(s) but {given} were given"]
  | badTruth input text => [s!"`{input}` expects true or false, got `{text}`"]
  | badNumber input text fault => [s!"`{input}` expects an int32, got `{text}`", fault.text]
  | unlinkable => ["failed to instantiate module"]
  | trapped function trap => [s!"`{function}` trapped", trap.text]
  | unfinished function => [s!"`{function}` did not finish"]

/-! ### What to call -/

/-- The function of an interface that a name means; without a name, the only one that there is. -/
def pickEntry (interface : List InterfaceEntry) (name? : Option String) :
    Except Problem InterfaceEntry :=
  let available := interface.map (·.name)
  match name?, interface with
  | some name, _ =>
      match interface.find? fun e => e.name == name with
      | some entry => .ok entry
      | none => .error (.noSuchFunction name available)
  | none, [only] => .ok only
  | none, [] => .error .nothingToCall
  | none, _ => .error (.ambiguous available)

def readArgument (input : InterfaceValue) (text : String) : Except Problem Word :=
  match input.type with
  | .bool =>
      if text = "true" then .ok 1
      else if text = "false" then .ok 0
      else .error (.badTruth input.name text)
  | _ =>
      match Text.readInteger 32 text with
      | .ok value => .ok (BitVec.ofInt 32 value)
      | .error fault => .error (.badNumber input.name text fault)

/-- The words of all arguments, of which there have to be as many as inputs. -/
def readArguments (entry : InterfaceEntry) (texts : List String) : Except Problem (List Word) :=
  if texts.length ≠ entry.inputs.length then
    .error (.wrongCount entry.name entry.inputs.length texts.length)
  else (entry.inputs.zip texts).mapM fun (input, text) => readArgument input text

/-! ### Calling -/

/-- How many calls can be nested. -/
def maxDepth : Nat := 1000

/-- More steps than any call takes that ends. -/
def maxSteps : Nat := 1000000000000000000

/-- The first word that a function of a module gives, if it gives one, and the world behind it. -/
def call (m : Module) (entry : InterfaceEntry) (args : List Word) (w : World) :
    Except Problem (Option Word) × World :=
  match Codegen.link? World.host m with
  | none => (.error .unlinkable, w)
  | some inst =>
      match inst.invokeExport maxSteps maxDepth entry.name args w with
      | (.gave words, w) => (.ok words.head?, w)
      | (.trapped trap, w) => (.error (.trapped entry.name trap), w)
      | (.stuck, w) | (.outOfFuel, w) => (.error (.unfinished entry.name), w)

/-- The text of what a function gave. -/
def resultText (entry : InterfaceEntry) (value? : Option Word) : String :=
  match value?, entry.outputs.head? with
  | none, _ => "()"
  | some value, some ⟨_, .bool⟩ => toString (value != 0)
  | some value, _ => wordText value

end Workbench.Trial
