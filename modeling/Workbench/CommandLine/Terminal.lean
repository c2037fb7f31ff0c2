import Workbench.Files.Disk
import Workbench.Net.Address

/-!
# Terminals

What commands need from their surroundings: files by path, an input, an output and a channel for
messages. A command works with any terminal. `Console.terminal` is one in memory, on which a command
is a function of the disk and the input.
-/

namespace Workbench.CommandLine

open Files (Disk Fault)
open Net (Address)
open Wasm (Bytes)

/-- The surroundings of a command. -/
structure Terminal (m : Type → Type) where
  readFile (path : String) : m (Except Fault String)
  writeFile (path : String) (content : Bytes) : m (Except Fault Unit)
  makeDirectories (path : String) : m (Except Fault Unit)
  /-- A disk with what a path leads to, and the path that leads there on that disk. -/
  tree (path : String) : m (Except Fault (Disk × String))
  readInput : m (Except Fault String)
  print (text : String) : m Unit
  warn (text : String) : m Unit
  /-- The time in milliseconds. -/
  clock : m Nat
  /-- Serves clients at an address until the program is stopped. -/
  listen (address : Address) : m (Except Fault Unit)

/-- A terminal in memory, where no time passes. -/
structure Console where
  disk : Disk
  input : Except Fault String
  output : String
  messages : String

namespace Console

/-- A console on which nothing was printed yet. -/
def fresh (disk : Disk) (input : String) : Console :=
  ⟨disk, .ok input, "", ""⟩

/-- Changes the disk, if that is possible. -/
def change (act : Disk → Except Fault Disk) : StateM Console (Except Fault Unit) := do
  let console ← get
  match act console.disk with
  | .ok disk =>
      set { console with disk := disk }
      return .ok ()
  | .error fault => return .error fault

/-- The operations of a console. It has no network. -/
def terminal : Terminal (StateM Console) where
  readFile path := do
    return ((← get).disk.locate path).bind fun (_, node) => node.text
  writeFile path content := change fun disk => disk.writeAt path content 0
  makeDirectories path := change fun disk => disk.makeDirectoriesAt path
  tree path := do return .ok ((← get).disk, path)
  readInput := do return (← get).input
  print text := modify fun console => { console with output := console.output ++ text }
  warn text := modify fun console => { console with messages := console.messages ++ text }
  clock := return 0
  listen _ := return .error (.other "Network is unreachable (os error 101)")

end Console

end Workbench.CommandLine
