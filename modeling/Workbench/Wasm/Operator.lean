import Workbench.Wasm.Leb128

/-!
# Operators in binary code

Code of any module, not only of those that are built here, is read into the flat list of its
operators. An operator is kept by its opcode; its operands are checked and dropped, except for the
function that a call names. Blocks are checked to nest: an alternative needs its conditional, and
nothing follows the mark that ends a function.
-/

namespace Workbench.Wasm

/-- An operator of a function body. -/
inductive Operator where
  | call (function : Nat)
  /-- An operator with an opcode of one byte. -/
  | plain (code : UInt8)
  /-- An operator with an opcode behind a leading byte. -/
  | paged (page : UInt8) (code : Nat)
  deriving DecidableEq, Repr, Inhabited

/-! ### Operands -/

/-- What can follow an opcode. -/
inductive Operand where
  | index
  | memArg
  | blockType
  /-- The targets of a branch table, the default included. -/
  | targets
  | word
  | long
  | raw (bytes : Nat)
  | types
  | heapType
  | catches
  deriving DecidableEq, Repr

/-- Reads an unsigned number of 32 bits. -/
def readIndex : Reader Nat :=
  Leb128.readUnsigned 32

/-- Takes so many bytes. -/
def readRaw (n : Nat) : Reader Bytes := fun input =>
  if input.length < n then none else some (input.take n, input.drop n)

/-- Reads so many items of one kind. -/
def readTimes {α : Type} (item : Reader α) : Nat → Reader (List α)
  | 0, input => some ([], input)
  | n + 1, input => do
      let (x, input) ← item input
      let (rest, input) ← readTimes item n input
      return (x :: rest, input)

/-- Whether a byte stands for a type of references or of heap objects. -/
def isHeapTypeByte (b : UInt8) : Bool :=
  0x69 ≤ b && b ≤ 0x74

/-- Reads a type of heap objects: a named one, or a position in the table of types. -/
def readHeapType : Reader Unit
  | [] => none
  | b :: rest =>
      if isHeapTypeByte b then some ((), rest)
      else
        match Leb128.readSigned 33 (b :: rest) with
        | some (index, rest) => if 0 ≤ index then some ((), rest) else none
        | none => none

def readValueType : Reader Unit
  | [] => none
  | b :: rest =>
      if (0x7b ≤ b && b ≤ 0x7f) || isHeapTypeByte b then some ((), rest)
      else if b == 0x63 || b == 0x64 then readHeapType rest
      else none

/-- Reads the type of a block: none, the type of a value, or a position in the table of types. -/
def readBlockType : Reader Unit
  | [] => none
  | b :: rest =>
      if b == 0x40 then some ((), rest)
      else
        match readValueType (b :: rest) with
        | some r => some r
        | none =>
            match Leb128.readSigned 33 (b :: rest) with
            | some (index, rest) => if 0 ≤ index then some ((), rest) else none
            | none => none

/-- Reads alignment and offset of a memory access; bit 6 of the alignment announces the number of a
memory. -/
def readMemArg : Reader Unit := fun input => do
  let (flags, input) ← readIndex input
  let (flags, input) ←
    if flags / 64 % 2 = 1 then do
      let (_, input) ← readIndex input
      pure (flags - 64, input)
    else pure (flags, input)
  if 64 ≤ flags then none
  else
    let (_, input) ← Leb128.readUnsigned 64 input
    return ((), input)

/-- Reads the clauses of a handler: a kind, for half of the kinds a tag, and a target. -/
def readCatch : Reader Unit
  | [] => none
  | kind :: rest => do
      let (_, rest) ← if kind ≤ 1 then readIndex rest else some (0, rest)
      let (_, rest) ← readIndex rest
      if kind ≤ 3 then some ((), rest) else none

namespace Operand

/-- Checks an operand and drops it. -/
def skip : Operand → Bytes → Option Bytes
  | index, input => (readIndex input).map (·.2)
  | memArg, input => (readMemArg input).map (·.2)
  | blockType, input => (readBlockType input).map (·.2)
  | targets, input => do
      let (count, input) ← readIndex input
      if input.length ≤ count then none
      else (readTimes readIndex (count + 1) input).map (·.2)
  | word, input => (Leb128.readSigned 32 input).map (·.2)
  | long, input => (Leb128.readSigned 64 input).map (·.2)
  | raw n, input => (readRaw n input).map (·.2)
  | types, input => do
      let (count, input) ← readIndex input
      if 10 < count then none else (readTimes readValueType count input).map (·.2)
  | heapType, input => (readHeapType input).map (·.2)
  | catches, input => do
      let (count, input) ← readIndex input
      if input.length < count then none else (readTimes readCatch count input).map (·.2)

/-- Checks operands in order and drops them. -/
def skipAll (operands : List Operand) (input : Bytes) : Option Bytes :=
  operands.foldlM (fun input operand => operand.skip input) input

end Operand

/-! ### Opcodes -/

/-- The operands of the opcodes of one byte; none for what is no opcode. -/
def plainOperands? (code : UInt8) : Option (List Operand) :=
  let c := code.toNat
  if c ≤ 0x01 || c = 0x05 || c = 0x0a || c = 0x0b || c = 0x0f || c = 0x19 then some []
  else if c ≤ 0x04 || c = 0x06 then some [.blockType]
  else if c ≤ 0x0d || c = 0x10 || c = 0x12 || c = 0x14 || c = 0x15 || c = 0x18 then some [.index]
  else if c = 0x0e then some [.targets]
  else if c = 0x11 || c = 0x13 then some [.index, .index]
  else if c = 0x1a || c = 0x1b then some []
  else if c = 0x1c then some [.types]
  else if c = 0x1f then some [.blockType, .catches]
  else if 0x20 ≤ c && c ≤ 0x26 then some [.index]
  else if 0x28 ≤ c && c ≤ 0x3e then some [.memArg]
  else if c = 0x3f || c = 0x40 then some [.index]
  else if c = 0x41 then some [.word]
  else if c = 0x42 then some [.long]
  else if c = 0x43 then some [.raw 4]
  else if c = 0x44 then some [.raw 8]
  else if 0x45 ≤ c && c ≤ 0xc4 then some []
  else if c = 0xd0 then some [.heapType]
  else if c = 0xd1 || c = 0xd3 || c = 0xd4 then some []
  else if c = 0xd2 || c = 0xd5 || c = 0xd6 then some [.index]
  else none

/-- The operands of operators on structures and arrays. -/
def objectOperands? (c : Nat) : Option (List Operand) :=
  if c ≤ 1 || c = 6 || c = 7 || (11 ≤ c && c ≤ 14) || c = 16 then some [.index]
  else if c ≤ 5 || (8 ≤ c && c ≤ 10) || (17 ≤ c && c ≤ 19) then some [.index, .index]
  else if c = 15 || (26 ≤ c && c ≤ 30) then some []
  else if 20 ≤ c && c ≤ 23 then some [.heapType]
  else if c = 24 || c = 25 then some [.raw 1, .index, .heapType, .heapType]
  else none

/-- The operands of saturating conversions, of operators on whole memories and tables and of wide
arithmetic. -/
def bulkOperands? (c : Nat) : Option (List Operand) :=
  if c ≤ 7 || (19 ≤ c && c ≤ 22) then some []
  else if c = 9 || c = 11 || c = 13 || (15 ≤ c && c ≤ 18) then some [.index]
  else if c = 8 || c = 10 || c = 12 || c = 14 then some [.index, .index]
  else none

/-- The codes among the vector operators that stand for nothing. -/
def vectorGaps : List Nat :=
  [154, 162, 165, 166, 175, 176, 178, 179, 180, 187, 194, 197, 198, 207, 208, 210, 211, 212, 226,
    238]

def vectorOperands? (c : Nat) : Option (List Operand) :=
  if c ≤ 11 || c = 92 || c = 93 then some [.memArg]
  else if c = 12 || c = 13 then some [.raw 16]
  else if 21 ≤ c && c ≤ 34 then some [.raw 1]
  else if 84 ≤ c && c ≤ 91 then some [.memArg, .raw 1]
  else if c ≤ 0x113 && !vectorGaps.contains c then some []
  else none

def sharedOperands? (c : Nat) : Option (List Operand) :=
  if c = 3 then some [.raw 1]
  else if c ≤ 2 || (0x10 ≤ c && c ≤ 0x4e) then some [.memArg]
  else none

/-- The operands of the opcodes behind a leading byte. -/
def pagedOperands? (page : UInt8) (code : Nat) : Option (List Operand) :=
  if page == 0xfb then objectOperands? code
  else if page == 0xfc then bulkOperands? code
  else if page == 0xfd then vectorOperands? code
  else if page == 0xfe then sharedOperands? code
  else none

/-- Whether a byte leads to an opcode behind it. -/
def isPage (b : UInt8) : Bool :=
  0xfb ≤ b && b ≤ 0xfe

def readOperator : Reader Operator
  | [] => none
  | b :: rest =>
      if b == 0x10 then (readIndex rest).map fun (function, rest) => (.call function, rest)
      else if isPage b then do
        let (code, rest) ← readIndex rest
        let operands ← pagedOperands? b code
        let rest ← Operand.skipAll operands rest
        return (.paged b code, rest)
      else do
        let operands ← plainOperands? b
        let rest ← Operand.skipAll operands rest
        return (.plain b, rest)

/-! ### Nesting -/

/-- An open block: a conditional still without alternative, or anything else. -/
inductive Frame where
  | conditional
  | other
  deriving DecidableEq, Repr

/-- The open blocks behind an operator, innermost first; none if the operator does not fit there. -/
def Operator.nest (operator : Operator) (frames : List Frame) : Option (List Frame) :=
  match operator with
  | .plain code =>
      if code == 0x02 || code == 0x03 || code == 0x06 || code == 0x1f then some (.other :: frames)
      else if code == 0x04 then some (.conditional :: frames)
      else if code == 0x05 then
        match frames with
        | .conditional :: outer => some (.other :: outer)
        | _ => none
      else if code == 0x0b || code == 0x18 then some frames.tail
      else some frames
  | _ => some frames

/-- Reads operators to the end of the input; `done` holds those read, last first. The rounds are the
bytes, of which each operator takes at least one. -/
def readOperatorsAux : Nat → List Frame → List Operator → Bytes → Option (List Operator)
  | _, _, done, [] => some done.reverse
  | 0, _, _, _ :: _ => none
  | _ + 1, [], _, _ :: _ => none
  | rounds + 1, frame :: outer, done, b :: rest => do
      let (operator, rest) ← readOperator (b :: rest)
      let frames ← operator.nest (frame :: outer)
      readOperatorsAux rounds frames (operator :: done) rest

def readOperators (code : Bytes) : Option (List Operator) :=
  readOperatorsAux code.length [.other] [] code

end Workbench.Wasm
