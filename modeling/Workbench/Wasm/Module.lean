import Workbench.Wasm.Leb128

/-!
# Modules

The part of the module format that contracts need: functions on words, imports and exports of
functions, names for debuggers and custom sections. Code is structured: a block holds its
instructions, so nesting is a matter of the type and branches count enclosing blocks outward.

`Module.encode` writes the binary form. A custom section goes to the end, so adding one only
appends.
-/

namespace Workbench.Wasm

open Lang (Word)

/-! ### Instructions -/

/-- Instructions that take two words and give one. -/
inductive NumOp where
  | add
  | sub
  | mul
  | divS
  | remS
  | shl
  | eq
  | ne
  | ltS
  | gtS
  | leS
  | geS
  deriving DecidableEq, Repr, Inhabited

inductive Instr where
  | unreachable
  | block (body : List Instr)
  | loop (body : List Instr)
  /-- A conditional that leaves so many words. Without alternative there is nothing in `no`. -/
  | ifElse (results : Nat) (yes no : List Instr)
  | br (depth : Nat)
  | brIf (depth : Nat)
  | ret
  | call (function : Nat)
  | drop
  | localGet (index : Nat)
  | localSet (index : Nat)
  | const (value : Word)
  | eqz
  | num (op : NumOp)
  deriving Repr, Inhabited

/-! ### Modules -/

/-- How many words a function takes and gives. -/
structure FuncType where
  params : Nat
  results : Nat
  deriving DecidableEq, Repr, Inhabited

/-- A function that the host provides; `type` is a position in the table of types. -/
structure Import where
  moduleName : String
  name : String
  type : Nat
  deriving DecidableEq, Repr, Inhabited

structure Func where
  type : Nat
  /-- How many locals there are beside the parameters. -/
  extraLocals : Nat
  body : List Instr
  deriving Repr, Inhabited

/-- A function that the host can call; imports come first in the numbering of functions. -/
structure Export where
  name : String
  function : Nat
  deriving DecidableEq, Repr, Inhabited

/-- Names by index, ascending. -/
abbrev NameMap := List (Nat × String)

/-- Names for debuggers. -/
structure Names where
  module : String
  functions : NameMap
  locals : List (Nat × NameMap)
  deriving Repr, Inhabited

structure Custom where
  name : String
  data : Bytes
  deriving DecidableEq, Repr, Inhabited

structure Module where
  types : List FuncType
  imports : List Import
  funcs : List Func
  exports : List Export
  names : Option Names
  customs : List Custom
  deriving Repr, Inhabited

def Module.addCustom (m : Module) (custom : Custom) : Module :=
  { m with customs := m.customs ++ [custom] }

/-! ### Binary form of the parts -/

/-- A text behind its length. -/
def encodeString (s : String) : Bytes :=
  let bytes := s.toUTF8.toList
  Leb128.unsigned bytes.length ++ bytes

/-- Items behind their count. -/
def encodeVector {α : Type} (encode : α → Bytes) (items : List α) : Bytes :=
  Leb128.unsigned items.length ++ items.flatMap encode

/-- Bytes behind their length. -/
def encodeSized (content : Bytes) : Bytes :=
  Leb128.unsigned content.length ++ content

/-- The byte of an instruction on two words. -/
def NumOp.opcode : NumOp → UInt8
  | eq => 0x46
  | ne => 0x47
  | ltS => 0x48
  | gtS => 0x4a
  | leS => 0x4c
  | geS => 0x4e
  | add => 0x6a
  | sub => 0x6b
  | mul => 0x6c
  | divS => 0x6d
  | remS => 0x6f
  | shl => 0x74

/-- The type of a block that leaves no word, or one. -/
def encodeBlockType (results : Nat) : UInt8 :=
  if results = 0 then 0x40 else 0x7f

mutual

/-- The bytes of an instruction; a block is closed by an end mark. -/
def Instr.encode : Instr → Bytes
  | .unreachable => [0x00]
  | .block body => 0x02 :: encodeBlockType 0 :: (encodeInstrs body ++ [0x0b])
  | .loop body => 0x03 :: encodeBlockType 0 :: (encodeInstrs body ++ [0x0b])
  | .ifElse results yes no =>
      let alternative := if no.isEmpty then [] else 0x05 :: encodeInstrs no
      0x04 :: encodeBlockType results :: (encodeInstrs yes ++ alternative ++ [0x0b])
  | .br depth => 0x0c :: Leb128.unsigned depth
  | .brIf depth => 0x0d :: Leb128.unsigned depth
  | .ret => [0x0f]
  | .call function => 0x10 :: Leb128.unsigned function
  | .drop => [0x1a]
  | .localGet index => 0x20 :: Leb128.unsigned index
  | .localSet index => 0x21 :: Leb128.unsigned index
  | .const value => 0x41 :: Leb128.word value
  | .eqz => [0x45]
  | .num op => [op.opcode]

def encodeInstrs : List Instr → Bytes
  | [] => []
  | i :: rest => i.encode ++ encodeInstrs rest

end

/-- The type of a function; all values are words. -/
def FuncType.encode (t : FuncType) : Bytes :=
  0x60 :: (encodeVector id (List.replicate t.params [0x7f]) ++
    encodeVector id (List.replicate t.results [0x7f]))

def Import.encode (i : Import) : Bytes :=
  encodeString i.moduleName ++ encodeString i.name ++ 0x00 :: Leb128.unsigned i.type

def Export.encode (e : Export) : Bytes :=
  encodeString e.name ++ 0x00 :: Leb128.unsigned e.function

/-- The body of a function, with its locals in at most one group. -/
def Func.encode (f : Func) : Bytes :=
  let locals :=
    if f.extraLocals = 0 then [0x00] else 0x01 :: (Leb128.unsigned f.extraLocals ++ [0x7f])
  encodeSized (locals ++ encodeInstrs f.body ++ [0x0b])

/-! ### Binary form of a module -/

/-- A section behind its mark and length. -/
def encodeSection (mark : UInt8) (content : Bytes) : Bytes :=
  mark :: encodeSized content

def Custom.encode (c : Custom) : Bytes :=
  encodeSection 0 (encodeString c.name ++ c.data)

/-- Names by index. -/
def encodeNameMap (names : NameMap) : Bytes :=
  encodeVector (fun (index, name) => Leb128.unsigned index ++ encodeString name) names

/-- The custom section that holds the names. -/
def Names.custom (n : Names) : Custom :=
  { name := "name"
    data :=
      encodeSection 0 (encodeString n.module) ++ encodeSection 1 (encodeNameMap n.functions) ++
        encodeSection 2
          (encodeVector (fun (index, names) => Leb128.unsigned index ++ encodeNameMap names)
            n.locals) }

/-- The mark of the format and its version. -/
def header : Bytes :=
  [0x00, 0x61, 0x73, 0x6d, 0x01, 0x00, 0x00, 0x00]

namespace Module

/-- The sections in front of the custom ones. Without imports that section is left out; the others
are always there. -/
def encodeCore (m : Module) : Bytes :=
  encodeSection 1 (encodeVector FuncType.encode m.types) ++
    (if m.imports.isEmpty then [] else encodeSection 2 (encodeVector Import.encode m.imports)) ++
    encodeSection 3 (encodeVector (fun f => Leb128.unsigned f.type) m.funcs) ++
    encodeSection 7 (encodeVector Export.encode m.exports) ++
    encodeSection 10 (encodeVector Func.encode m.funcs)

def encode (m : Module) : Bytes :=
  header ++ m.encodeCore ++ (m.names.map (·.custom)).toList.flatMap Custom.encode ++
    m.customs.flatMap Custom.encode

/-- A custom section only appends to the binary form. -/
theorem encode_addCustom (m : Module) (custom : Custom) :
    (m.addCustom custom).encode = m.encode ++ custom.encode := by
  simp [encode, addCustom, encodeCore]

/-- The type at a position. -/
def type? (m : Module) (index : Nat) : Option FuncType :=
  m.types[index]?

end Module

end Workbench.Wasm
