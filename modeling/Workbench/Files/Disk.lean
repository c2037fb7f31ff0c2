import Workbench.Files.Fault
import Workbench.Files.Path
import Workbench.Wasm.Leb128

/-!
# Disks

A disk is a table of files and directories by place. The place of the root is always a directory and
not in the table. Calls answer with what they found or with a fault, and a call with a fault changes
nothing.

Whether a place exists is a question about every directory on the way to it: what stands below a
missing one is missing, and below a file there is nothing that could be asked for.
-/

namespace Workbench.Files

open Wasm (Bytes)

inductive Node where
  | directory
  /-- A file with the time of its last change. -/
  | file (content : Bytes) (modified : Nat)
  deriving DecidableEq, Repr, Inhabited

def Node.isDirectory : Node → Bool
  | directory => true
  | file .. => false

/-- The time of the last change; it is not known of directories. -/
def Node.modified : Node → Nat
  | directory => 0
  | file _ modified => modified

/-- The text in a file. -/
def Node.text : Node → Except Fault String
  | .directory => .error .isDirectory
  | .file content _ =>
      match String.fromUTF8? ⟨content.toArray⟩ with
      | some text => .ok text
      | none => .error .notText

structure Disk where
  entries : List (Place × Node)
  deriving Repr, Inhabited

namespace Disk

/-! ### The table -/

def empty : Disk := ⟨[]⟩

/-- The entry of a place in a table. -/
def lookup? (place : Place) : List (Place × Node) → Option Node
  | [] => none
  | (p, node) :: rest => if p = place then some node else lookup? place rest

/-- The table with the entry of a place set. -/
def insertEntry (place : Place) (node : Node) : List (Place × Node) → List (Place × Node)
  | [] => [(place, node)]
  | (p, old) :: rest =>
      if p = place then (p, node) :: rest else (p, old) :: insertEntry place node rest

def node? (d : Disk) (place : Place) : Option Node :=
  if place = [] then some .directory else lookup? place d.entries

def put (d : Disk) (place : Place) (node : Node) : Disk :=
  ⟨insertEntry place node d.entries⟩

def erase (d : Disk) (place : Place) : Disk :=
  ⟨d.entries.filter fun (p, _) => p ≠ place⟩

theorem lookup?_insertEntry_self (place : Place) (node : Node) (entries : List (Place × Node)) :
    lookup? place (insertEntry place node entries) = some node := by
  induction entries with
  | nil => simp [insertEntry, lookup?]
  | cons e rest ih => by_cases h : e.1 = place <;> simp [insertEntry, lookup?, h, ih]

theorem lookup?_insertEntry_of_ne {place other : Place} (h : other ≠ place) (node : Node)
    (entries : List (Place × Node)) :
    lookup? other (insertEntry place node entries) = lookup? other entries := by
  induction entries with
  | nil => simp [insertEntry, lookup?, h.symm]
  | cons e rest ih =>
      by_cases he : e.1 = place
      · simp [insertEntry, lookup?, he, h.symm]
      · by_cases ho : e.1 = other <;> simp_all [insertEntry, lookup?]

theorem node?_put_self (d : Disk) {place : Place} (h : place ≠ []) (node : Node) :
    (d.put place node).node? place = some node := by
  simp [node?, put, h, lookup?_insertEntry_self]

theorem node?_put_of_ne (d : Disk) {place other : Place} (h : other ≠ place) (node : Node) :
    (d.put place node).node? other = d.node? other := by
  simp [node?, put, lookup?_insertEntry_of_ne h]

/-! ### Looking things up -/

/-- One step of a way through directories. -/
inductive Step where
  | stay
  | up
  | down (name : String)
  deriving DecidableEq, Repr

/-- Follows a way from a place where a given node is. Every step starts at a directory, and none
leads above the root. -/
def follow (d : Disk) (place : Place) (node : Node) : List Step → Except Fault (Place × Node)
  | [] => .ok (place, node)
  | step :: rest =>
      if node.isDirectory then
        match step with
        | .stay => follow d place node rest
        | .up => if place = [] then .error .missing else follow d place.dropLast .directory rest
        | .down name =>
            match d.node? (place ++ [name]) with
            | some node => follow d (place ++ [name]) node rest
            | none => .error .missing
      else .error .notDirectory

/-- What is at a place, or why nothing can be there. -/
def stat (d : Disk) (place : Place) : Except Fault Node :=
  (d.follow [] .directory (place.map .down)).map (·.2)

def stepOf (piece : List Char) : Step :=
  if piece = [] ∨ piece = ['.'] then .stay
  else if piece = ['.', '.'] then .up
  else .down (String.ofList piece)

/-- Where a path leads from the root of the disk. Absolute paths lead off the disk. -/
def locate (d : Disk) (path : String) : Except Fault (Place × Node) :=
  if path.isEmpty || isAbsolute path then .error .missing
  else d.follow [] .directory ((splitSlashes path.toList).map stepOf)

/-! ### Reading -/

def readText (d : Disk) (place : Place) : Except Fault String :=
  (d.stat place).bind Node.text

/-! ### Writing -/

/-- Whether something can be put at a place: its directory exists. -/
def checkParent (d : Disk) (place : Place) : Except Fault Unit :=
  match d.stat place.dropLast with
  | .ok .directory => .ok ()
  | .ok (.file ..) => .error .notDirectory
  | .error fault => .error fault

/-- The disk with a file written, over what it held before. -/
def write (d : Disk) (place : Place) (content : Bytes) (now : Nat) : Except Fault Disk := do
  d.checkParent place
  match d.node? place with
  | some .directory => .error .isDirectory
  | _ => .ok (d.put place (.file content now))

/-- The disk with an empty file at a place where nothing is. -/
def createNew (d : Disk) (place : Place) (now : Nat) : Except Fault Disk := do
  d.checkParent place
  match d.node? place with
  | some _ => .error .exists
  | none => .ok (d.put place (.file [] now))

def removeFile (d : Disk) (place : Place) : Except Fault Disk :=
  match d.stat place with
  | .ok .directory => .error .isDirectory
  | .ok (.file ..) => .ok (d.erase place)
  | .error fault => .error fault

/-- The disk with the time of a file's last change set. -/
def setModified (d : Disk) (place : Place) (time : Nat) : Except Fault Disk :=
  match d.stat place with
  | .ok .directory => .error .isDirectory
  | .ok (.file content _) => .ok (d.put place (.file content time))
  | .error fault => .error fault

/-- Makes the directories along a way, from a place that is a directory. A file at its end is told
as such, and one before it as no directory. -/
def makeAlong (d : Disk) (place : Place) : List Step → Except Fault Disk
  | [] => .ok d
  | .stay :: rest => makeAlong d place rest
  | .up :: rest => if place = [] then .error .missing else makeAlong d place.dropLast rest
  | .down name :: rest =>
      match d.node? (place ++ [name]) with
      | some .directory => makeAlong d (place ++ [name]) rest
      | some (.file ..) => .error (if rest.isEmpty then .exists else .notDirectory)
      | none => makeAlong (d.put (place ++ [name]) .directory) (place ++ [name]) rest

/-- The disk with a directory and those above it. -/
def makeDirectories (d : Disk) (place : Place) : Except Fault Disk :=
  d.makeAlong [] (place.map .down)

/-- Where a way ends; none if it leads above the root. -/
def endOf (place : Place) : List Step → Option Place
  | [] => some place
  | .stay :: rest => endOf place rest
  | .up :: rest => if place = [] then none else endOf place.dropLast rest
  | .down name :: rest => endOf (place ++ [name]) rest

/-! ### Paths as texts -/

/-- The disk with a file written where a path leads. A path that ends in a slash or in dots is that
of a directory. -/
def writeAt (d : Disk) (path : String) (content : Bytes) (now : Nat) : Except Fault Disk := do
  if path.isEmpty || isAbsolute path then throw .missing
  let pieces := splitSlashes path.toList
  let named := (pieces.reverse.dropWhile (· = [])).reverse
  let (place, node) ← d.follow [] .directory (named.dropLast.map stepOf)
  if !node.isDirectory then throw .notDirectory
  match named.getLast?.map stepOf with
  | some (.down name) =>
      if named.length < pieces.length then throw .isDirectory
      d.write (place ++ [name]) content now
  | _ => throw .isDirectory

def makeDirectoriesAt (d : Disk) (path : String) : Except Fault Disk :=
  if isAbsolute path then .error .denied
  else d.makeAlong [] ((splitSlashes path.toList).map stepOf)

/-! ### Walking -/

def isBelow (top place : Place) : Bool :=
  top.isPrefixOf place && top.length < place.length

/-- The order of places by name, directory by directory. -/
def before (a b : Place × Node) : Bool :=
  !decide (b.1 < a.1)

/-- Everything below a place, in order, with the places as seen from there. -/
def below (d : Disk) (top : Place) : List (Place × Node) :=
  ((d.entries.filter fun (p, _) => isBelow top p).map fun (p, node) =>
    (p.drop top.length, node)).mergeSort before

end Disk

end Workbench.Files
