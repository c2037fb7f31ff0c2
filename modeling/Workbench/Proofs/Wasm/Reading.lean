import Workbench.Wasm.Module
import Workbench.Wasm.Sections

/-!
# Reading what was written

Every part of the binary form is read back as what it was written for, and exactly its own bytes are
taken, whatever follows. What can keep it from being read are numbers that the format does not hold:
then the reading fails.
-/

namespace Workbench.Wasm

/-- A result is there if something fits, and then it is this one. -/
structure Gives {α : Type} (result : Option α) (fits : Prop) (x : α) : Prop where
  gives : fits → result = some x
  fails : ¬ fits → result = none

namespace Gives

variable {α β : Type} {result : Option α} {fits : Prop} {x : α}

theorem of_eq (h : result = some x) : Gives result True x :=
  ⟨fun _ => h, fun never => absurd trivial never⟩

theorem congr {fits' : Prop} (h : Gives result fits x) (same : fits ↔ fits') :
    Gives result fits' x :=
  ⟨fun f => h.gives (same.2 f), fun f => h.fails fun g => f (same.1 g)⟩

theorem bind {fits' : Prop} {y : β} (first : Gives result fits x) (next : α → Option β)
    (second : Gives (next x) fits' y) : Gives (result.bind next) (fits ∧ fits') y := by
  constructor
  · intro both
    rw [first.gives both.1, Option.bind_some, second.gives both.2]
  · intro not
    by_cases f : fits
    · have f' : ¬ fits' := fun f' => not ⟨f, f'⟩
      rw [first.gives f, Option.bind_some, second.fails f']
    · rw [first.fails f, Option.bind_none]

theorem map (h : Gives result fits x) (f : α → β) : Gives (result.map f) fits (f x) := by
  constructor
  · intro fit
    rw [h.gives fit, Option.map_some]
  · intro not
    rw [h.fails not, Option.map_none]

theorem isSome_iff (h : Gives result fits x) : result.isSome ↔ fits := by
  by_cases f : fits
  · simp [h.gives f, f]
  · simp [h.fails f, f]

theorem eq_of_some (h : Gives result fits x) {y : α} (found : result = some y) : y = x := by
  have fit := h.isSome_iff.1 (by simp [found])
  rw [h.gives fit, Option.some.injEq] at found
  exact found.symm

end Gives

/-- From these bytes a reader takes a value, whatever follows them, or fails if it does not fit. -/
def Reads {α : Type} (reader : Reader α) (fits : Prop) (bytes : Bytes) (x : α) : Prop :=
  ∀ rest, Gives (reader (bytes ++ rest)) fits (x, rest)

namespace Reads

variable {α β : Type} {reader : Reader α} {fits : Prop} {bytes : Bytes} {x : α}

theorem congr {fits' : Prop} (h : Reads reader fits bytes x) (same : fits ↔ fits') :
    Reads reader fits' bytes x :=
  fun rest => (h rest).congr same

/-- One value behind another. -/
theorem bind {fits' : Prop} {bytes' : Bytes} {y : β} (first : Reads reader fits bytes x)
    (next : α → Reader β) (second : Reads (next x) fits' bytes' y) :
    Reads (fun input => (reader input).bind fun r => next r.1 r.2) (fits ∧ fits')
      (bytes ++ bytes') y := by
  intro rest
  rw [List.append_assoc]
  exact (first (bytes' ++ rest)).bind (fun r => next r.1 r.2) (second rest)

theorem map (h : Reads reader fits bytes x) (f : α → β) :
    Reads (fun input => (reader input).map fun r => (f r.1, r.2)) fits bytes (f x) :=
  fun rest => (h rest).map _

end Reads

/-! ### Numbers -/

namespace Leb128

theorem toNat_toUInt8 {n : Nat} (h : n < 256) : n.toUInt8.toNat = n := by
  simp [Nat.mod_eq_of_lt h]

/-- A natural number is read back if it has no more bits than allowed. -/
theorem reads_unsigned {bits : Nat} (some : 0 < bits) (n : Nat) :
    Reads (readUnsigned bits) (n < 1 <<< bits) (unsigned n) n := by
  intro rest
  simp only [Nat.one_shiftLeft]
  induction n using unsigned.induct generalizing bits with
  | case1 n small =>
      have byte := toNat_toUInt8 (n := n) (by omega)
      rw [unsigned, if_pos small, List.singleton_append, readUnsigned]
      simp only [byte, small, if_true, Nat.one_shiftLeft]
      exact ⟨fun fits => if_pos fits, fun large => if_neg large⟩
  | case2 n large ih =>
      have byte := toNat_toUInt8 (n := n % 128 + 128) (by omega)
      have continues : ¬ n % 128 + 128 < 128 := by omega
      have value : n % 128 + 128 - 128 + 128 * (n / 128) = n := by omega
      rw [unsigned, if_neg large, List.cons_append, readUnsigned]
      simp only [byte, continues, if_false]
      by_cases wide : 7 < bits
      · have power : 2 ^ bits = 128 * 2 ^ (bits - 7) := by
          rw [show (128 : Nat) = 2 ^ 7 from rfl, ← Nat.pow_add]
          congr 1
          omega
        have same : n / 128 < 2 ^ (bits - 7) ↔ n < 2 ^ bits := by
          rw [power, Nat.div_lt_iff_lt_mul (by decide), Nat.mul_comm]
        have high := (@ih (bits - 7) (by omega)).congr same
        rw [if_pos wide]
        have whole := high.map fun r : Nat × Bytes => (n % 128 + 128 - 128 + 128 * r.1, r.2)
        rwa [value] at whole
      · have bound : 2 ^ bits ≤ 2 ^ 7 := Nat.pow_le_pow_right (by decide) (by omega)
        rw [if_neg wide]
        exact ⟨fun fits => absurd fits (by omega), fun _ => rfl⟩

/-- An integer that has no more bits than allowed is read back. -/
theorem readSigned_signed {bits : Nat} (some : 0 < bits) (n : Int)
    (least : -(1 <<< (bits - 1) : Nat) ≤ n) (most : n < (1 <<< (bits - 1) : Nat)) (rest : Bytes) :
    readSigned bits (signed n ++ rest) = .some (n, rest) := by
  rw [Nat.one_shiftLeft] at least most
  induction n using signed.induct generalizing bits with
  | case1 n small =>
      have byte : (lowBits n).toUInt8.toNat = lowBits n :=
        toNat_toUInt8 (by unfold lowBits; omega)
      have ends : lowBits n < 128 := by unfold lowBits; omega
      have value : (if lowBits n < 64 then (lowBits n : Int) else (lowBits n : Int) - 128) = n := by
        unfold lowBits
        split <;> omega
      rw [signed, if_pos small, List.singleton_append, readSigned]
      simp only [byte, ends, if_true, value, Nat.one_shiftLeft, least, most, and_self]
  | case2 n large ih =>
      have byte : (lowBits n + 128).toUInt8.toNat = lowBits n + 128 :=
        toNat_toUInt8 (by unfold lowBits; omega)
      have continues : ¬ lowBits n + 128 < 128 := by omega
      have wide : 7 < bits := by
        by_cases narrow : bits ≤ 7
        · have bound : 2 ^ (bits - 1) ≤ 2 ^ 6 := Nat.pow_le_pow_right (by decide) (by omega)
          omega
        · omega
      have power : 2 ^ (bits - 1) = 128 * 2 ^ (bits - 7 - 1) := by
        rw [show (128 : Nat) = 2 ^ 7 from rfl, ← Nat.pow_add]
        congr 1
        omega
      have value : ((lowBits n + 128 : Nat) : Int) - 128 + 128 * (n / 128) = n := by
        unfold lowBits
        omega
      have high := @ih (bits - 7) (by omega) (by omega) (by omega)
      rw [signed, if_neg large, List.cons_append, readSigned]
      simp only [byte, continues, if_false, wide, if_true, high, Option.map_some, value]

/-- Every word is read back. -/
theorem reads_word (w : Lang.Word) : Reads (readSigned 32) True (word w) w.toInt :=
  fun rest => .of_eq <|
    readSigned_signed (by decide) _ (BitVec.le_toInt w) (BitVec.toInt_lt (x := w)) rest

theorem unsigned_of_lt {n : Nat} (h : n < 128) : unsigned n = [n.toUInt8] := by
  rw [unsigned, if_pos h]

theorem word_of_small {w : Lang.Word} (small : -64 ≤ w.toInt ∧ w.toInt < 64) :
    word w = [(lowBits w.toInt).toUInt8] := by
  rw [word, signed, if_pos small]

theorem unsigned_ne_nil (n : Nat) : unsigned n ≠ [] := by
  rw [unsigned]
  split <;> exact List.cons_ne_nil _ _

end Leb128

/-- Counts, lengths and indices are less than this. -/
def indexLimit : Nat := 1 <<< 32

theorem indexLimit_pos : 0 < indexLimit := by
  decide

theorem reads_index (n : Nat) : Reads readIndex (n < indexLimit) (Leb128.unsigned n) n :=
  Leb128.reads_unsigned (by decide) n

/-! ### Operators -/

/-- From these bytes operands are skipped, whatever follows them, or fail if they do not fit. -/
def Skips (operands : List Operand) (fits : Prop) (bytes : Bytes) : Prop :=
  ∀ rest, Gives (Operand.skipAll operands (bytes ++ rest)) fits rest

theorem skips_nothing : Skips [] True [] :=
  fun _ => .of_eq rfl

theorem skipAll_singleton (operand : Operand) (input : Bytes) :
    Operand.skipAll [operand] input = operand.skip input := by
  simp [Operand.skipAll]

theorem skips_index (n : Nat) : Skips [.index] (n < indexLimit) (Leb128.unsigned n) := by
  intro rest
  rw [skipAll_singleton]
  exact (reads_index n rest).map (·.2)

theorem skips_word (w : Lang.Word) : Skips [.word] True (Leb128.word w) := by
  intro rest
  rw [skipAll_singleton]
  exact (Leb128.reads_word w rest).map (·.2)

theorem skips_blockType (results : Nat) : Skips [.blockType] True [encodeBlockType results] := by
  intro rest
  rw [skipAll_singleton]
  by_cases none : results = 0
  · rw [encodeBlockType, if_pos none]
    exact .of_eq rfl
  · rw [encodeBlockType, if_neg none]
    exact .of_eq rfl

/-- An opcode of one byte with its operands. -/
theorem Skips.reads {operands : List Operand} {fits : Prop} {bytes : Bytes}
    (h : Skips operands fits bytes) (code : UInt8) (known : plainOperands? code = some operands)
    (plain : (code == 0x10) = false) (single : isPage code = false) :
    Reads readOperator fits (code :: bytes) (.plain code) := by
  intro rest
  have read : readOperator (code :: (bytes ++ rest)) =
      (Operand.skipAll operands (bytes ++ rest)).map fun rest => (.plain code, rest) := by
    simp only [readOperator, plain, single, known, Bool.false_eq_true, if_false]
    exact Option.map_eq_bind.symm
  rw [List.cons_append, read]
  exact (h rest).map _

theorem reads_call (function : Nat) :
    Reads readOperator (function < indexLimit) (0x10 :: Leb128.unsigned function) (.call function) :=
  fun rest => (reads_index function).map Operator.call rest

/-! ### Code -/

mutual

/-- The operators of an instruction; a block is closed by an end mark. -/
def Instr.operators : Instr → List Operator
  | .unreachable => [.plain 0x00]
  | .block body => .plain 0x02 :: (operatorsOf body ++ [.plain 0x0b])
  | .loop body => .plain 0x03 :: (operatorsOf body ++ [.plain 0x0b])
  | .ifElse _ yes no =>
      let alternative := if no.isEmpty then [] else .plain 0x05 :: operatorsOf no
      .plain 0x04 :: (operatorsOf yes ++ alternative ++ [.plain 0x0b])
  | .br _ => [.plain 0x0c]
  | .brIf _ => [.plain 0x0d]
  | .ret => [.plain 0x0f]
  | .call function => [.call function]
  | .drop => [.plain 0x1a]
  | .localGet _ => [.plain 0x20]
  | .localSet _ => [.plain 0x21]
  | .const _ => [.plain 0x41]
  | .eqz => [.plain 0x45]
  | .num op => [.plain op.opcode]

def operatorsOf : List Instr → List Operator
  | [] => []
  | i :: rest => i.operators ++ operatorsOf rest

end

mutual

/-- The numbers that are written into an instruction, words apart. -/
def Instr.numbers : Instr → List Nat
  | .br n | .brIf n | .call n | .localGet n | .localSet n => [n]
  | .block body | .loop body => numbersOf body
  | .ifElse _ yes no => numbersOf yes ++ numbersOf no
  | _ => []

def numbersOf : List Instr → List Nat
  | [] => []
  | i :: rest => i.numbers ++ numbersOf rest

end

@[simp] theorem operatorsOf_append (code rest : List Instr) :
    operatorsOf (code ++ rest) = operatorsOf code ++ operatorsOf rest := by
  induction code with
  | nil => rfl
  | cons i code ih => rw [List.cons_append, operatorsOf, operatorsOf, ih, List.append_assoc]

/-- Every number fits into 32 bits. -/
def AllFit (numbers : List Nat) : Prop :=
  ∀ n ∈ numbers, n < indexLimit

theorem allFit_nil : AllFit [] ↔ True := by
  simp [AllFit]

theorem allFit_singleton {n : Nat} : AllFit [n] ↔ n < indexLimit := by
  simp [AllFit]

theorem allFit_append {numbers rest : List Nat} :
    AllFit (numbers ++ rest) ↔ AllFit numbers ∧ AllFit rest :=
  List.forall_mem_append

/-- Between two states of nesting a reader of operators passes over bytes in as many rounds as they
hold operators, or fails if they do not fit. -/
structure Passes (fits : Prop) (bytes : Bytes) (operators : List Operator)
    (frames frames' : List Frame) : Prop where
  passes : fits → ∀ rounds done rest,
    readOperatorsAux (operators.length + rounds) frames done (bytes ++ rest) =
      readOperatorsAux rounds frames' (operators.reverse ++ done) rest
  fails : ¬ fits → ∀ rounds done rest,
    readOperatorsAux (operators.length + rounds) frames done (bytes ++ rest) = none

namespace Passes

variable {fits fits' : Prop} {bytes bytes' : Bytes} {operators operators' : List Operator}
  {frames frames' frames'' : List Frame}

theorem nothing (frames : List Frame) : Passes True [] [] frames frames :=
  ⟨fun _ rounds done rest => by simp, fun never => absurd trivial never⟩

theorem congr (h : Passes fits bytes operators frames frames') (same : fits ↔ fits') :
    Passes fits' bytes operators frames frames' :=
  ⟨fun f => h.passes (same.2 f), fun f => h.fails fun g => f (same.1 g)⟩

theorem append (first : Passes fits bytes operators frames frames')
    (second : Passes fits' bytes' operators' frames' frames'') :
    Passes (fits ∧ fits') (bytes ++ bytes') (operators ++ operators') frames frames'' := by
  constructor
  · rintro ⟨f, f'⟩ rounds done rest
    rw [List.length_append, Nat.add_assoc, List.append_assoc, first.passes f, second.passes f',
      List.reverse_append, List.append_assoc]
  · intro not rounds done rest
    rw [List.length_append, Nat.add_assoc, List.append_assoc]
    by_cases f : fits
    · rw [first.passes f]
      exact second.fails (fun f' => not ⟨f, f'⟩) _ _ _
    · exact first.fails f _ _ _

end Passes

/-- One operator takes one round. -/
theorem Reads.passes {fits : Prop} {b : UInt8} {bytes : Bytes} {operator : Operator}
    (h : Reads readOperator fits (b :: bytes) operator) {frame : Frame} {outer frames' : List Frame}
    (nests : operator.nest (frame :: outer) = some frames') :
    Passes fits (b :: bytes) [operator] (frame :: outer) frames' := by
  constructor
  · intro fit rounds done rest
    have read := (h rest).gives fit
    rw [List.cons_append] at read
    show readOperatorsAux (1 + rounds) _ _ (b :: (bytes ++ rest)) = _
    rw [Nat.add_comm, readOperatorsAux]
    simp [read, nests]
  · intro not rounds done rest
    have read := (h rest).fails not
    rw [List.cons_append] at read
    show readOperatorsAux (1 + rounds) _ _ (b :: (bytes ++ rest)) = _
    rw [Nat.add_comm, readOperatorsAux]
    simp [read]

/-- An operator with an opcode of one byte that neither opens nor ends a block. -/
theorem Skips.passes {operands : List Operand} {fits : Prop} {bytes : Bytes}
    (h : Skips operands fits bytes) {code : UInt8} (known : plainOperands? code = some operands)
    (plain : (code == 0x10) = false) (single : isPage code = false) {frame : Frame}
    {outer : List Frame} (flat : Operator.nest (.plain code) (frame :: outer) = frame :: outer) :
    Passes fits (code :: bytes) [.plain code] (frame :: outer) (frame :: outer) :=
  (h.reads code known plain single).passes flat

theorem passes_end (frame : Frame) (outer : List Frame) :
    Passes True [0x0b] [.plain 0x0b] (frame :: outer) outer :=
  (skips_nothing.reads 0x0b rfl rfl rfl).passes rfl

theorem passes_num (op : NumOp) (frame : Frame) (outer : List Frame) :
    Passes True [op.opcode] [.plain op.opcode] (frame :: outer) (frame :: outer) := by
  cases op <;> exact skips_nothing.passes rfl rfl rfl rfl

/-- What stands between the opening of a block and its end. -/
theorem Passes.enclosed {fits : Prop} (b : UInt8) (results : Nat) {bytes : Bytes}
    {operators : List Operator} {frame first last : Frame} {outer : List Frame}
    (known : plainOperands? b = some [.blockType]) (plain : (b == 0x10) = false)
    (single : isPage b = false)
    (nests : Operator.nest (.plain b) (frame :: outer) = some (first :: frame :: outer))
    (inside : Passes fits bytes operators (first :: frame :: outer) (last :: frame :: outer)) :
    Passes fits (b :: encodeBlockType results :: (bytes ++ [0x0b]))
      (.plain b :: (operators ++ [.plain 0x0b])) (frame :: outer) (frame :: outer) := by
  have opens := ((skips_blockType results).reads b known plain single).passes nests
  have closes := passes_end last (frame :: outer)
  have whole := opens.append (inside.append closes)
  exact whole.congr (by simp)

mutual

/-- What stands in the code of a function is read as its operators, and changes no nesting. -/
theorem Instr.passes : ∀ (i : Instr) (frame : Frame) (outer : List Frame),
    Passes (AllFit i.numbers) i.encode i.operators (frame :: outer) (frame :: outer)
  | .unreachable, _, _ | .ret, _, _ | .drop, _, _ | .eqz, _, _ =>
      (skips_nothing.passes rfl rfl rfl rfl).congr allFit_nil.symm
  | .num op, frame, outer => (passes_num op frame outer).congr allFit_nil.symm
  | .const w, _, _ => ((skips_word w).passes rfl rfl rfl rfl).congr allFit_nil.symm
  | .br n, _, _ | .brIf n, _, _ | .localGet n, _, _ | .localSet n, _, _ =>
      ((skips_index n).passes rfl rfl rfl rfl).congr allFit_singleton.symm
  | .call n, _, _ => ((reads_call n).passes rfl).congr allFit_singleton.symm
  | .block body, frame, outer | .loop body, frame, outer =>
      (passesAll body .other (frame :: outer)).enclosed _ _ rfl rfl rfl rfl
  | .ifElse results yes [], frame, outer => by
      have inside := passesAll yes .conditional (frame :: outer)
      have fits : AllFit (numbersOf yes) ↔ AllFit (Instr.ifElse results yes []).numbers := by
        simp [Instr.numbers, numbersOf]
      have whole := (inside.congr fits).enclosed 0x04 results rfl rfl rfl rfl
      simpa [Instr.encode, Instr.operators] using whole
  | .ifElse _ yes (i :: rest), frame, outer => by
      have onYes := passesAll yes .conditional (frame :: outer)
      have turns : Passes True [0x05] [.plain 0x05] (.conditional :: frame :: outer)
          (.other :: frame :: outer) := (skips_nothing.reads 0x05 rfl rfl rfl).passes rfl
      have onNo := passesAll (i :: rest) .other (frame :: outer)
      have inside := onYes.append (turns.append onNo)
      exact (inside.congr (by simp [Instr.numbers, allFit_append])).enclosed _ _ rfl rfl rfl rfl

theorem passesAll : ∀ (code : List Instr) (frame : Frame) (outer : List Frame),
    Passes (AllFit (numbersOf code)) (encodeInstrs code) (operatorsOf code) (frame :: outer)
      (frame :: outer)
  | [], _, _ => (Passes.nothing _).congr allFit_nil.symm
  | i :: rest, frame, outer =>
      ((i.passes frame outer).append (passesAll rest frame outer)).congr allFit_append.symm

end

/-! ### Repetition and lengths -/

theorem reads_raw (bytes : Bytes) : Reads (readRaw bytes.length) True bytes bytes :=
  fun rest => .of_eq (by simp [readRaw])

/-- Bytes behind their length. -/
theorem reads_sized {β : Type} (next : Bytes → Reader β) {content : Bytes} {fits : Prop} {y : β}
    (h : Reads (next content) fits [] y) :
    Reads (fun input => (readIndex input).bind fun r => (readRaw r.1 r.2).bind fun r =>
      next r.1 r.2) (content.length < indexLimit ∧ fits) (encodeSized content) y := by
  have behind := (reads_raw content).bind next h
  have whole := (reads_index content.length).bind
    (fun n input => (readRaw n input).bind fun r => next r.1 r.2) behind
  rw [List.append_nil] at whole
  exact whole.congr (by simp)

/-- Items one behind another. -/
theorem Reads.times {α β : Type} {item : Reader β} {fits : α → Prop} {encode : α → Bytes}
    {value : α → β} {items : List α}
    (each : ∀ a ∈ items, Reads item (fits a) (encode a) (value a)) :
    Reads (readTimes item items.length) (∀ a ∈ items, fits a) (items.flatMap encode)
      (items.map value) := by
  induction items with
  | nil => exact fun rest => (Gives.of_eq rfl).congr (by simp)
  | cons a items ih =>
      obtain ⟨first, others⟩ := List.forall_mem_cons.1 each
      have rest := (ih others).map (value a :: ·)
      have whole := first.bind
        (fun x input => (readTimes item items.length input).map fun r => (x :: r.1, r.2)) rest
      intro behind
      have same := (whole behind).congr List.forall_mem_cons.symm
      rw [List.flatMap_cons]
      simpa [readTimes, Option.map_eq_bind, Function.comp_def] using same

theorem length_le_flatMap {α : Type} {encode : α → Bytes} {items : List α}
    (some : ∀ a ∈ items, encode a ≠ []) : items.length ≤ (items.flatMap encode).length := by
  induction items with
  | nil => exact Nat.zero_le _
  | cons a items ih =>
      obtain ⟨first, others⟩ := List.forall_mem_cons.1 some
      have := List.length_pos_iff.2 first
      have := ih others
      rw [List.flatMap_cons, List.length_append, List.length_cons]
      omega

/-- The items of a section. -/
theorem sectionItems?_encodeVector {α β : Type} {item : Reader β} {fits : α → Prop}
    {encode : α → Bytes} {value : α → β} {items : List α}
    (each : ∀ a ∈ items, Reads item (fits a) (encode a) (value a))
    (some : ∀ a ∈ items, encode a ≠ []) :
    Gives (sectionItems? item (encodeVector encode items))
      (items.length < indexLimit ∧ ∀ a ∈ items, fits a) (items.map value) := by
  have enough : ¬ (items.flatMap encode).length < items.length :=
    Nat.not_lt.2 (length_le_flatMap some)
  have count := reads_index items.length (items.flatMap encode)
  have read := Reads.times each []
  rw [List.append_nil] at read
  refine count.bind _ ?_
  dsimp only
  rw [if_neg enough]
  constructor
  · intro fit
    rw [read.gives fit]
  · intro not
    rw [read.fails not]

/-! ### Bodies -/

/-- The locals of a body, in at most one group. -/
def Func.groups (f : Func) : List Nat :=
  if f.extraLocals = 0 then [] else [f.extraLocals]

def encodeGroup (count : Nat) : Bytes :=
  Leb128.unsigned count ++ [0x7f]

/-- The bytes of a body behind their length. -/
def Func.content (f : Func) : Bytes :=
  encodeVector encodeGroup f.groups ++ (encodeInstrs f.body ++ [0x0b])

theorem Func.encode_eq (f : Func) : f.encode = encodeSized f.content := by
  unfold Func.encode Func.content Func.groups encodeVector
  by_cases without : f.extraLocals = 0
  · simp [without, Leb128.unsigned_of_lt]
  · simp [without, Leb128.unsigned_of_lt, encodeGroup]

theorem reads_group (count : Nat) : Reads readLocals (count < indexLimit) (encodeGroup count) () := by
  have type : Reads readValueType True [0x7f] () := fun _ => .of_eq rfl
  have whole := (reads_index count).bind (fun _ => readValueType) type
  exact whole.congr (by simp)

/-- The operators of a body. -/
def Func.operators (f : Func) : List Operator :=
  operatorsOf f.body ++ [.plain 0x0b]

/-- The numbers that are written into a body. -/
def Func.numbers (f : Func) : List Nat :=
  f.extraLocals :: numbersOf f.body

mutual

theorem Instr.length_operators_le : ∀ i : Instr, i.operators.length ≤ i.encode.length
  | .unreachable | .ret | .drop | .eqz | .num _ => Nat.le_refl 1
  | .const _ | .br _ | .brIf _ | .localGet _ | .localSet _ | .call _ => by
      simp [Instr.operators, Instr.encode]
  | .block body | .loop body => by
      have := length_operatorsOf_le body
      simp only [Instr.operators, Instr.encode, List.length_cons, List.length_append]
      omega
  | .ifElse _ yes no => by
      have := length_operatorsOf_le yes
      have := length_operatorsOf_le no
      simp only [Instr.operators, Instr.encode]
      split <;> simp only [List.length_cons, List.length_append, List.length_nil] <;> omega

theorem length_operatorsOf_le : ∀ code : List Instr,
    (operatorsOf code).length ≤ (encodeInstrs code).length
  | [] => Nat.le_refl 0
  | i :: rest => by
      have := i.length_operators_le
      have := length_operatorsOf_le rest
      simp only [operatorsOf, encodeInstrs, List.length_append]
      omega

end

theorem readOperators_content (f : Func) :
    Gives (readOperators (encodeInstrs f.body ++ [0x0b])) (AllFit (numbersOf f.body))
      f.operators := by
  have code := (passesAll f.body .other []).append (passes_end .other [])
  have size := length_operatorsOf_le f.body
  obtain ⟨slack, enough⟩ : ∃ slack, (encodeInstrs f.body ++ [0x0b]).length =
      (operatorsOf f.body ++ [Operator.plain 0x0b]).length + slack :=
    Nat.exists_eq_add_of_le (by simp; omega)
  unfold readOperators
  rw [enough]
  constructor
  · intro fits
    have whole := code.passes ⟨fits, trivial⟩ slack [] []
    rw [List.append_nil] at whole
    rw [whole]
    simp [readOperatorsAux, Func.operators]
  · intro not
    have whole := code.fails (fun both => not both.1) slack [] []
    rwa [List.append_nil] at whole

theorem fit_groups (f : Func) : (∀ n ∈ f.groups, n < indexLimit) ↔ f.extraLocals < indexLimit := by
  unfold Func.groups
  by_cases without : f.extraLocals = 0
  · simp [without, indexLimit_pos]
  · simp [without]

theorem bodyOperators_content (f : Func) :
    Gives (bodyOperators f.content) (AllFit f.numbers) f.operators := by
  let code := encodeInstrs f.body ++ [0x0b]
  have few : f.groups.length < indexLimit := by
    unfold Func.groups
    split
    · exact indexLimit_pos
    · exact (by decide : 1 < indexLimit)
  have some : ∀ n ∈ f.groups, encodeGroup n ≠ [] := fun n _ => by simp [encodeGroup]
  have enough : ¬ (f.groups.flatMap encodeGroup ++ code).length < f.groups.length := by
    have := length_le_flatMap some
    simp only [List.length_append]
    omega
  have count := reads_index f.groups.length (f.groups.flatMap encodeGroup ++ code)
  have groups := Reads.times (fun n (_ : n ∈ f.groups) => reads_group n) code
  have operators := groups.bind (fun r => readOperators r.2) (readOperators_content f)
  have checked : Gives (if (f.groups.flatMap encodeGroup ++ code).length < f.groups.length then none
      else (readTimes readLocals f.groups.length (f.groups.flatMap encodeGroup ++ code)).bind
        fun r => readOperators r.2)
      ((∀ n ∈ f.groups, n < indexLimit) ∧ AllFit (numbersOf f.body)) f.operators := by
    rw [if_neg enough]
    exact operators
  have whole := count.bind (fun r => if r.2.length < r.1 then none else
    (readTimes readLocals r.1 r.2).bind fun r => readOperators r.2) checked
  have all : (f.groups.length < indexLimit ∧ (∀ n ∈ f.groups, n < indexLimit) ∧
      AllFit (numbersOf f.body)) ↔ AllFit f.numbers := by
    rw [fit_groups]
    exact ⟨fun h => List.forall_mem_cons.2 h.2, fun h => ⟨few, List.forall_mem_cons.1 h⟩⟩
  have same : f.content = Leb128.unsigned f.groups.length ++
      (f.groups.flatMap encodeGroup ++ code) := by
    simp [Func.content, encodeVector, code]
  rw [same]
  exact whole.congr all

/-- A body with its length is read as its operators. -/
theorem Func.reads (f : Func) :
    Reads readBody (f.content.length < indexLimit ∧ AllFit f.numbers) f.encode f.operators := by
  have body : Reads (fun input => (bodyOperators f.content).map fun operators => (operators, input))
      (AllFit f.numbers) [] f.operators :=
    fun rest => (bodyOperators_content f).map _
  have whole := reads_sized (fun content input =>
    (bodyOperators content).map fun operators => (operators, input)) body
  intro rest
  have read := whole rest
  simp only [Option.map_eq_bind, Function.comp_def] at read
  rw [Func.encode_eq]
  exact read

end Workbench.Wasm
