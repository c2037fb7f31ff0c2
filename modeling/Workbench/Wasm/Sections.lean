import Workbench.Wasm.Operator

/-!
# Reading modules

A module in binary form is read as far as its price depends on it: the imported functions and the
operators of every body. The frame around them is checked: the header, the lengths of all sections,
their order, and that as many functions are declared as there are bodies. The contents of other
sections are not looked into beyond their count of entries.
-/

namespace Workbench.Wasm

/-! ### Parts -/

/-- Reads a text, which has to be valid UTF-8 and not too long. -/
def readString : Reader String := fun input => do
  let (length, input) ← readIndex input
  if 100000 < length then none
  else
    let (bytes, input) ← readRaw length input
    let text ← String.fromUTF8? ⟨bytes.toArray⟩
    return (text, input)

/-- Reads the limits of a memory or table: flags, a least size and perhaps a greatest and a page
size. -/
def readLimits : Reader Unit
  | [] => none
  | flags :: rest => do
      if 16 ≤ flags then none
      else
        let (_, rest) ← Leb128.readUnsigned 64 rest
        let (_, rest) ← if flags % 2 = 1 then Leb128.readUnsigned 64 rest else some (0, rest)
        let (_, rest) ← if 8 ≤ flags then readIndex rest else some (0, rest)
        return ((), rest)

/-- Reads what an import is; the result says whether it is a function. -/
def readImportKind : Reader Bool
  | [] => none
  | kind :: rest =>
      if kind == 0 then (readIndex rest).map fun (_, rest) => (true, rest)
      else if kind == 1 then do
        let (_, rest) ← readValueType rest
        let (_, rest) ← readLimits rest
        return (false, rest)
      else if kind == 2 then (readLimits rest).map fun (_, rest) => (false, rest)
      else if kind == 3 then do
        let (_, rest) ← readValueType rest
        match rest with
        | mutability :: rest => if mutability ≤ 1 then some (false, rest) else none
        | [] => none
      else if kind == 4 then
        match rest with
        | 0 :: rest => (readIndex rest).map fun (_, rest) => (false, rest)
        | _ => none
      else none

/-- Reads an import: the names of its module and of itself, and whether it is a function. -/
def readImport : Reader (String × String × Bool) := fun input => do
  let (moduleName, input) ← readString input
  let (name, input) ← readString input
  let (isFunction, input) ← readImportKind input
  return ((moduleName, name, isFunction), input)

def readLocals : Reader Unit := fun input => do
  let (_, input) ← readIndex input
  readValueType input

/-- The operators of a function body, behind its locals. -/
def bodyOperators (body : Bytes) : Option (List Operator) := do
  let (count, input) ← readIndex body
  if input.length < count then none
  else
    let (_, input) ← readTimes readLocals count input
    readOperators input

def readBody : Reader (List Operator) := fun input => do
  let (size, input) ← readIndex input
  let (body, input) ← readRaw size input
  let operators ← bodyOperators body
  return (operators, input)

/-- The items of a section that holds their count and then just them. -/
def sectionItems? {α : Type} (item : Reader α) (content : Bytes) : Option (List α) := do
  let (count, input) ← readIndex content
  if input.length < count then none
  else
    match readTimes item count input with
    | some (items, []) => some items
    | _ => none

/-! ### Sections -/

/-- What the price of a module depends on. -/
structure Outline where
  /-- Module and name of each imported function. -/
  imports : List (String × String)
  /-- The operators of each body. -/
  bodies : List (List Operator)
  deriving DecidableEq, Repr, Inhabited

/-- The place of a section in the order of sections; custom and unknown ones have none. -/
def sectionRank? (mark : UInt8) : Option Nat :=
  ([1, 2, 3, 4, 5, 13, 6, 7, 8, 9, 12, 10, 11] : List UInt8).idxOf? mark

/-- A section that was cut out of a module. -/
structure Section where
  mark : UInt8
  content : Bytes
  deriving DecidableEq, Repr, Inhabited

/-- Cuts the sections apart; the rounds are the bytes. -/
def readSectionsAux : Nat → List Section → Bytes → Option (List Section)
  | _, done, [] => some done.reverse
  | 0, _, _ :: _ => none
  | rounds + 1, done, mark :: rest => do
      let (size, rest) ← readIndex rest
      let (content, rest) ← readRaw size rest
      readSectionsAux rounds (⟨mark, content⟩ :: done) rest

def readSections (input : Bytes) : Option (List Section) :=
  readSectionsAux input.length [] input

namespace Section

/-- Whether the frame of a section is sound: a custom one has a name, the start and the count of
data are one number, and the others begin with a count. -/
def isFramed (s : Section) : Bool :=
  if s.mark == 0 then (readString s.content).isSome
  else if s.mark == 8 || s.mark == 12 then
    match readIndex s.content with
    | some (_, []) => true
    | _ => false
  else if s.mark ≤ 13 then (readIndex s.content).isSome
  else true

end Section

/-- Whether the ranks of sections ascend without repetition. -/
def isAscending : List Nat → Bool
  | a :: b :: rest => a < b && isAscending (b :: rest)
  | _ => true

def content? (sections : List Section) (mark : UInt8) : Option Bytes :=
  (sections.find? fun s => s.mark == mark).map (·.content)

/-- How many entries a section announces; zero without the section. -/
def entryCount (sections : List Section) (mark : UInt8) : Nat :=
  match content? sections mark with
  | some content => ((readIndex content).map (·.1)).getD 0
  | none => 0

/-- The outline of sections that are sound and in order. -/
def Outline.ofSections? (sections : List Section) : Option Outline := do
  if !sections.all Section.isFramed then none
  else if !isAscending (sections.filterMap fun s => sectionRank? s.mark) then none
  else if entryCount sections 3 ≠ entryCount sections 10 then none
  else
    let imports ← ((content? sections 2).map (sectionItems? readImport)).getD (some [])
    let bodies ← ((content? sections 10).map (sectionItems? readBody)).getD (some [])
    let functions := imports.filterMap fun (moduleName, name, isFunction) =>
      if isFunction then some (moduleName, name) else none
    return ⟨functions, bodies⟩

/-- The outline of a module in binary form; none if the module is malformed. -/
def Outline.ofBytes? (bytes : Bytes) : Option Outline :=
  match bytes with
  | 0x00 :: 0x61 :: 0x73 :: 0x6d :: 0x01 :: 0x00 :: 0x00 :: 0x00 :: rest =>
      (readSections rest).bind Outline.ofSections?
  | _ => none

end Workbench.Wasm
