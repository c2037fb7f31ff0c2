import Workbench.Files.Disk

/-!
# Outputs

What a program writes is a finite start and, for a program that never stops writing, a piece that
comes again and again. So programs that write for ever can feed others that read only a part.
-/

namespace Workbench.Sandbox

open Wasm (Bytes)

structure Output where
  start : Bytes
  /-- What follows for ever; nothing if the output ends. -/
  cycle : Bytes
  deriving DecidableEq, Repr, Inhabited

namespace Output

def empty : Output := ⟨[], []⟩

/-- An output that ends. -/
def ofBytes (bytes : Bytes) : Output := ⟨bytes, []⟩

def ofText (text : String) : Output := ⟨text.toUTF8.toList, []⟩

def isEndless (o : Output) : Bool :=
  !o.cycle.isEmpty

/-- One output behind another, which is never reached behind one without end. -/
def append (a b : Output) : Output :=
  if a.isEndless then a else ⟨a.start ++ b.start, b.cycle⟩

def take (count : Nat) (o : Output) : Bytes :=
  let start := o.start.take count
  if o.isEndless && start.length < count then
    let missing := count - start.length
    let rounds := missing / o.cycle.length + 1
    start ++ ((List.replicate rounds o.cycle).flatten.take missing)
  else start

/-- An output with each byte replaced by others. -/
def mapBytes (f : UInt8 → Bytes) (o : Output) : Output :=
  ⟨o.start.flatMap f, o.cycle.flatMap f⟩

end Output

/-- What a program does from start to end. -/
structure Deed where
  out : Output := .empty
  err : String := ""
  /-- Whether it complains before it writes. -/
  complainsFirst : Bool := false
  /-- How long it takes, in milliseconds. -/
  lasts : Nat := 0
  endless : Bool := false
  code : Nat := 0
  /-- The disk behind it, if it changes that. -/
  disk? : Option Files.Disk := none
  deriving Repr, Inhabited

/-- The deed of a program that only writes. -/
def Deed.writes (out : Output) : Deed :=
  { out := out, endless := out.isEndless }

/-- The deed of a program that only writes a text. -/
def Deed.shows (text : String) : Deed :=
  .writes (.ofText text)

/-- The deed of a program that complains. -/
def Deed.fails (code : Nat) (text : String) : Deed :=
  { err := text, code := code }

end Workbench.Sandbox
