import Workbench.Sandbox.Course
import Workbench.Sandbox.Running

/-!
# Machines

A machine starts a program with its arguments in a directory of its disk. It has a shell and some
tools; a program that is named by a path is a file, and none of these can be executed.
-/

namespace Workbench.Sandbox

open Files (Disk Fault Place)

/-- More steps than any script takes that ends. -/
def scriptFuel : Nat := 100000

/-- Whether a text can be handed to a program. -/
def isClean (text : String) : Bool :=
  !text.toList.contains '\x00'

/-- An output as it is read, in one piece. -/
def Output.delivery (o : Output) : Delivery :=
  ⟨[o.start], false⟩

/-- The course of a shell from its start to its end. -/
def Shell.course (sh : Shell) : Course where
  stdout := sh.outputs.1.delivery
  stderr := sh.outputs.2.delivery
  lasts? := if sh.stop? = some .never then none else some sh.clock
  status := match sh.stop? with
    | some (.signalled _) => .signalled
    | _ => .exited sh.status

/-- The course of a tool. -/
def Deed.course (d : Deed) : Course where
  stdout := d.out.delivery
  stderr := ⟨[d.err.toUTF8.toList], false⟩
  lasts? := if d.endless then none else some d.lasts
  status := .exited d.code

def start (disk : Disk) (root : String) (cwd? : Option String) (program : String)
    (args : List String) : Except Fault Course := do
  if !(program :: args).all isClean then throw (.other "nul byte found in provided data")
  let place ← match cwd? with
    | none => pure []
    | some path =>
        match disk.locate path with
        | .ok (place, .directory) => pure place
        | .ok (_, .file ..) => throw .notDirectory
        | .error fault => throw fault
  let site : Site := ⟨disk, place, root⟩
  let name := programName program
  if isShell name then
    return (Shell.runArguments scriptFuel (.fresh site program .empty) args).course
  if [".", "..", "/"].contains name then throw .denied
  if name.toList.contains '/' then
    match site.find name with
    | .ok _ => throw .denied
    | .error fault => throw fault
  match tool? name site .empty args with
  | some deed => return deed.course
  | none => throw .missing

end Workbench.Sandbox
