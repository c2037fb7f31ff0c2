import Workbench.Proofs.Lang.Texts
import Workbench.Proofs.Wasm.Reading

/-!
# Outlines of modules

The binary form of a module is cut into the sections that it was made of. What is read from them are
the functions that it imports and the operators of its bodies. Beyond the numbers in its code, the
lengths of its sections and of the names that are looked at have to fit.
-/

namespace Workbench.Wasm

/-! ### Sections -/

def Section.encode (s : Section) : Bytes :=
  encodeSection s.mark s.content

theorem readSectionsAux_sections (sections done : List Section) (rounds : Nat) :
    Gives (readSectionsAux (sections.length + rounds) done (sections.flatMap Section.encode))
      (∀ s ∈ sections, s.content.length < indexLimit) (done.reverse ++ sections) := by
  induction sections generalizing done with
  | nil =>
      refine Gives.congr (.of_eq ?_) (by simp)
      simp [readSectionsAux]
  | cons s rest ih =>
      have content : Reads (fun input => .some (s.content, input)) True [] s.content :=
        fun _ => .of_eq rfl
      have first := reads_sized (fun content input => .some (content, input)) content
        (rest.flatMap Section.encode)
      have whole := first.bind (fun r =>
        readSectionsAux (rest.length + rounds) (⟨s.mark, r.1⟩ :: done) r.2) (ih (s :: done))
      rw [List.length_cons, Nat.add_right_comm, List.flatMap_cons]
      show Gives (readSectionsAux _ done (s.mark :: (encodeSized s.content ++ _))) _ _
      rw [readSectionsAux]
      have fits : ((s.content.length < indexLimit ∧ True) ∧ ∀ t ∈ rest, t.content.length < indexLimit) ↔
          ∀ t ∈ s :: rest, t.content.length < indexLimit := by simp
      have same := whole.congr fits
      simpa [Option.bind_assoc] using same

/-- Sections are cut apart again if their lengths fit. -/
theorem readSections_sections (sections : List Section) :
    Gives (readSections (sections.flatMap Section.encode))
      (∀ s ∈ sections, s.content.length < indexLimit) sections := by
  have size : sections.length ≤ (sections.flatMap Section.encode).length :=
    length_le_flatMap fun s _ => List.cons_ne_nil _ _
  obtain ⟨rounds, enough⟩ := Nat.exists_eq_add_of_le size
  unfold readSections
  rw [enough]
  exact readSectionsAux_sections sections [] rounds

/-! ### Names -/

/-- The longest name that is read. -/
def maxName : Nat := 100000

theorem reads_string (s : String) :
    Reads readString (s.utf8ByteSize ≤ maxName) (encodeString s) s := by
  intro rest
  let bytes := s.toUTF8.toList
  have length : bytes.length = s.utf8ByteSize := Lang.length_toUTF8 s
  have text : Gives (String.fromUTF8? ⟨bytes.toArray⟩ |>.map fun text => (text, rest)) True
      (s, rest) := (Gives.of_eq (Lang.fromUTF8?_toUTF8 s)).map _
  have behind := ((reads_raw bytes) rest).bind (fun r =>
    (String.fromUTF8? ⟨r.1.toArray⟩).map fun text => (text, r.2)) text
  have allowed : Gives (if maxName < bytes.length then none else
      (readRaw bytes.length (bytes ++ rest)).bind fun r =>
        (String.fromUTF8? ⟨r.1.toArray⟩).map fun text => (text, r.2))
      (s.utf8ByteSize ≤ maxName) (s, rest) := by
    rw [length]
    constructor
    · intro short
      rw [if_neg (Nat.not_lt.2 short), ← length]
      exact behind.gives ⟨trivial, trivial⟩
    · intro long
      rw [if_pos (Nat.not_le.1 long)]
  have whole := (reads_index bytes.length (bytes ++ rest)).bind (fun r =>
    if maxName < r.1 then none else
      (readRaw r.1 r.2).bind fun r =>
        (String.fromUTF8? ⟨r.1.toArray⟩).map fun text => (text, r.2)) allowed
  have fits : (bytes.length < indexLimit ∧ s.utf8ByteSize ≤ maxName) ↔ s.utf8ByteSize ≤ maxName := by
    have longest : maxName < indexLimit := by decide
    omega
  have read := whole.congr fits
  simp only [Option.map_eq_bind, Function.comp_def] at read
  rw [← List.append_assoc] at read
  exact read

/-- An import is read as a function under its names. -/
theorem Import.reads (i : Import) :
    Reads readImport
      (i.moduleName.utf8ByteSize ≤ maxName ∧ i.name.utf8ByteSize ≤ maxName ∧ i.type < indexLimit)
      i.encode (i.moduleName, i.name, true) := by
  have kind : Reads readImportKind (i.type < indexLimit) (0x00 :: Leb128.unsigned i.type) true :=
    fun rest => (reads_index i.type).map (fun _ => true) rest
  have whole := (reads_string i.moduleName).bind (fun moduleName input =>
      (readString input).bind fun r => (readImportKind r.2).map fun s =>
        ((moduleName, r.1, s.1), s.2))
    ((reads_string i.name).bind (fun name input =>
      (readImportKind input).map fun s => ((i.moduleName, name, s.1), s.2))
    (kind.map fun isFunction => (i.moduleName, i.name, isFunction)))
  intro rest
  have read := whole rest
  simp only [Option.map_eq_bind, Function.comp_def, ← List.append_assoc] at read
  exact read

/-! ### Vectors -/

theorem length_le_encodeVector {α : Type} {encode : α → Bytes} {items : List α}
    (some : ∀ a ∈ items, encode a ≠ []) : items.length ≤ (encodeVector encode items).length := by
  have := length_le_flatMap some
  rw [encodeVector, List.length_append]
  omega

/-- A section of counted items announces them all if its length fits. -/
theorem readIndex_encodeVector {α : Type} {encode : α → Bytes} {items : List α}
    (some : ∀ a ∈ items, encode a ≠ []) (fits : (encodeVector encode items).length < indexLimit) :
    readIndex (encodeVector encode items) = .some (items.length, items.flatMap encode) := by
  have few := Nat.lt_of_le_of_lt (length_le_encodeVector some) fits
  exact (reads_index items.length (items.flatMap encode)).gives few

theorem Import.encode_ne_nil (i : Import) : i.encode ≠ [] := by
  simp [Import.encode]

theorem Func.encode_ne_nil (f : Func) : f.encode ≠ [] := by
  simp [Func.encode, encodeSized, Leb128.unsigned_ne_nil]

theorem length_le_of_mem {α : Type} (encode : α → Bytes) {items : List α} {a : α}
    (mem : a ∈ items) :
    (encode a).length ≤ (encodeVector encode items).length := by
  obtain ⟨before, after, rfl⟩ := List.append_of_mem mem
  simp only [encodeVector, List.flatMap_append, List.flatMap_cons, List.length_append]
  omega

/-! ### Modules -/

namespace Module

variable (m : Module)

/-- The custom sections of a module, that of the names first. -/
def allCustoms : List Custom :=
  (m.names.map (·.custom)).toList ++ m.customs

/-- The sections of a module in front of its custom ones. -/
def coreSections : List Section :=
  ⟨1, encodeVector FuncType.encode m.types⟩ ::
    ((if m.imports.isEmpty then [] else [⟨2, encodeVector Import.encode m.imports⟩]) ++
      [⟨3, encodeVector (fun f => Leb128.unsigned f.type) m.funcs⟩,
        ⟨7, encodeVector Export.encode m.exports⟩, ⟨10, encodeVector Func.encode m.funcs⟩])

def sections : List Section :=
  m.coreSections ++ m.allCustoms.map fun c => ⟨0, encodeString c.name ++ c.data⟩

/-- What the price of a module depends on. -/
def outline : Outline where
  imports := m.imports.map fun i => (i.moduleName, i.name)
  bodies := m.funcs.map Func.operators

/-- A module whose numbers have 32 bits and whose names are not too long. -/
structure Fits : Prop where
  sections : ∀ s ∈ m.sections, s.content.length < indexLimit
  customs : ∀ c ∈ m.allCustoms, c.name.utf8ByteSize ≤ maxName
  imports : ∀ i ∈ m.imports,
    i.moduleName.utf8ByteSize ≤ maxName ∧ i.name.utf8ByteSize ≤ maxName ∧ i.type < indexLimit
  code : ∀ f ∈ m.funcs, AllFit f.numbers

theorem encode_eq_sections : m.encode = header ++ m.sections.flatMap Section.encode := by
  have customs : m.allCustoms.flatMap Custom.encode =
      (m.allCustoms.map fun c => Section.mk 0 (encodeString c.name ++ c.data)).flatMap
        Section.encode := by
    rw [List.flatMap_map]
    rfl
  unfold Module.encode Module.encodeCore sections coreSections
  rw [List.append_assoc, List.append_assoc, ← List.flatMap_append]
  show _ ++ (_ ++ m.allCustoms.flatMap _) = _
  rw [customs]
  by_cases none : m.imports.isEmpty
  · simp [none, Section.encode]
  · simp [none, Section.encode]

/-! ### Frames of sections -/

variable {m}

theorem isAscending_sections :
    isAscending (m.sections.filterMap fun s => sectionRank? s.mark) := by
  have customs : (m.allCustoms.map fun c => Section.mk 0 (encodeString c.name ++ c.data)).filterMap
      (fun s => sectionRank? s.mark) = [] := by
    rw [List.filterMap_map]
    exact List.filterMap_eq_nil_iff.2 fun c _ => rfl
  rw [sections, List.filterMap_append, customs, List.append_nil]
  by_cases none : m.imports.isEmpty
  · rw [coreSections, if_pos none]
    rfl
  · rw [coreSections, if_neg none]
    rfl

theorem content?_imports :
    content? m.sections 2 =
      if m.imports.isEmpty then none else some (encodeVector Import.encode m.imports) := by
  by_cases none : m.imports.isEmpty
  · have customs : (m.allCustoms.map fun c =>
        Section.mk 0 (encodeString c.name ++ c.data)).find? (fun s => s.mark == 2) = .none := by
      simp
    simp only [content?, sections, coreSections, none, if_true]
    exact congrArg (Option.map _) customs
  · simp only [content?, sections, coreSections, none]
    rfl

theorem content?_signatures :
    content? m.sections 3 = some (encodeVector (fun f => Leb128.unsigned f.type) m.funcs) := by
  by_cases none : m.imports.isEmpty
  · simp only [content?, sections, coreSections, none, if_true]
    rfl
  · simp only [content?, sections, coreSections, none]
    rfl

theorem content?_bodies :
    content? m.sections 10 = some (encodeVector Func.encode m.funcs) := by
  by_cases none : m.imports.isEmpty
  · simp only [content?, sections, coreSections, none, if_true]
    rfl
  · simp only [content?, sections, coreSections, none]
    rfl

/-- The sections in front of the custom ones are framed if their lengths fit. -/
theorem isFramed_coreSections (lengths : ∀ s ∈ m.coreSections, s.content.length < indexLimit) :
    ∀ s ∈ m.coreSections, s.isFramed := by
  have counted {α : Type} {encode : α → Bytes} {items : List α} {mark : UInt8}
      (listed : ⟨mark, encodeVector encode items⟩ ∈ m.coreSections)
      (some : ∀ a ∈ items, encode a ≠ []) (counts : mark ∈ [1, 2, 3, 7, 10]) :
      (Section.mk mark (encodeVector encode items)).isFramed := by
    have announced := readIndex_encodeVector some (lengths _ listed)
    simp only [List.mem_cons, List.not_mem_nil, or_false] at counts
    rcases counts with rfl | rfl | rfl | rfl | rfl <;> simp [Section.isFramed, announced]
  intro s mem
  have place := mem
  simp only [coreSections, List.mem_cons, List.mem_append, List.not_mem_nil, or_false] at place
  rcases place with rfl | second | rfl | rfl | rfl
  · exact counted mem (fun t _ => List.cons_ne_nil _ _) (by decide)
  · split at second
    · cases second
    · rw [List.mem_singleton.1 second] at mem ⊢
      exact counted mem (fun i _ => i.encode_ne_nil) (by decide)
  · exact counted mem (fun f _ => Leb128.unsigned_ne_nil _) (by decide)
  · exact counted mem (fun e _ => by simp [Export.encode]) (by decide)
  · exact counted mem (fun f _ => f.encode_ne_nil) (by decide)

theorem isFramed_sections (lengths : ∀ s ∈ m.sections, s.content.length < indexLimit) :
    m.sections.all Section.isFramed ↔ ∀ c ∈ m.allCustoms, c.name.utf8ByteSize ≤ maxName := by
  have core := isFramed_coreSections fun s mem => lengths s (List.mem_append_left _ mem)
  have custom (c : Custom) : (Section.mk 0 (encodeString c.name ++ c.data)).isFramed ↔
      c.name.utf8ByteSize ≤ maxName := (reads_string c.name c.data).isSome_iff
  rw [List.all_eq_true, sections, List.forall_mem_append]
  simp only [List.forall_mem_map, custom]
  exact ⟨fun h => h.2, fun h => ⟨core, h⟩⟩

theorem mem_signatures :
    ⟨3, encodeVector (fun f => Leb128.unsigned f.type) m.funcs⟩ ∈ m.sections := by
  simp [sections, coreSections]

theorem mem_bodies : ⟨10, encodeVector Func.encode m.funcs⟩ ∈ m.sections := by
  simp [sections, coreSections]

theorem mem_imports (some : ¬ m.imports.isEmpty) :
    ⟨2, encodeVector Import.encode m.imports⟩ ∈ m.sections := by
  simp [sections, coreSections, some]

/-- As many functions are declared as there are bodies. -/
theorem entryCount_sections (lengths : ∀ s ∈ m.sections, s.content.length < indexLimit) :
    entryCount m.sections 3 = entryCount m.sections 10 := by
  have signatures := readIndex_encodeVector (fun f (_ : f ∈ m.funcs) =>
    Leb128.unsigned_ne_nil f.type) (lengths _ mem_signatures)
  have bodies := readIndex_encodeVector (fun f (_ : f ∈ m.funcs) => f.encode_ne_nil)
    (lengths _ mem_bodies)
  simp only [entryCount, content?_signatures, content?_bodies, signatures, bodies]
  rfl

/-! ### Outlines -/

theorem imports_sections (lengths : ∀ s ∈ m.sections, s.content.length < indexLimit) :
    Gives (((content? m.sections 2).map (sectionItems? readImport)).getD (some []))
      (∀ i ∈ m.imports,
        i.moduleName.utf8ByteSize ≤ maxName ∧ i.name.utf8ByteSize ≤ maxName ∧ i.type < indexLimit)
      (m.imports.map fun i => (i.moduleName, i.name, true)) := by
  rw [content?_imports]
  by_cases none : m.imports.isEmpty
  · rw [if_pos none]
    have empty := List.isEmpty_iff.1 none
    exact (Gives.of_eq (by simp [empty])).congr (by simp [empty])
  · rw [if_neg none]
    have some (i : Import) (_ : i ∈ m.imports) := i.encode_ne_nil
    have few := Nat.lt_of_le_of_lt (length_le_encodeVector some) (lengths _ (mem_imports none))
    have items := sectionItems?_encodeVector (fun i (_ : i ∈ m.imports) => i.reads) some
    exact items.congr ⟨fun h => h.2, fun h => ⟨few, h⟩⟩

theorem bodies_sections (lengths : ∀ s ∈ m.sections, s.content.length < indexLimit) :
    Gives (((content? m.sections 10).map (sectionItems? readBody)).getD (some []))
      (∀ f ∈ m.funcs, AllFit f.numbers) (m.funcs.map Func.operators) := by
  have some (f : Func) (_ : f ∈ m.funcs) := f.encode_ne_nil
  have fits := lengths _ mem_bodies
  have few := Nat.lt_of_le_of_lt (length_le_encodeVector some) fits
  have short (f : Func) (mem : f ∈ m.funcs) : f.content.length < indexLimit := by
    have whole := length_le_of_mem Func.encode mem
    have part : f.content.length ≤ f.encode.length := by
      rw [f.encode_eq, encodeSized, List.length_append]
      omega
    have : (encodeVector Func.encode m.funcs).length < indexLimit := fits
    omega
  have items := sectionItems?_encodeVector (fun f (_ : f ∈ m.funcs) => f.reads) some
  rw [content?_bodies]
  refine items.congr ⟨fun h f mem => (h.2 f mem).2, fun h => ⟨few, fun f mem => ?_⟩⟩
  exact ⟨short f mem, h f mem⟩

theorem ofSections?_sections (lengths : ∀ s ∈ m.sections, s.content.length < indexLimit) :
    Gives (Outline.ofSections? m.sections) m.Fits m.outline := by
  have functions : (m.imports.map fun i => (i.moduleName, i.name, true)).filterMap
      (fun i => if i.2.2 then some (i.1, i.2.1) else none) = m.outline.imports := by
    rw [List.filterMap_map]
    exact congrFun List.filterMap_eq_map m.imports
  have bodies := (bodies_sections lengths).bind (fun bodies =>
    some (Outline.mk m.outline.imports bodies)) (Gives.of_eq rfl)
  rw [← functions] at bodies
  have read := (imports_sections lengths).bind (fun imports =>
    (((content? m.sections 10).map (sectionItems? readBody)).getD (some [])).bind fun bodies =>
      some (Outline.mk (imports.filterMap fun i =>
        if i.2.2 then some (i.1, i.2.1) else none) bodies)) bodies
  rw [functions] at read
  have framed := isFramed_sections lengths
  unfold Outline.ofSections?
  by_cases names : ∀ c ∈ m.allCustoms, c.name.utf8ByteSize ≤ maxName
  · have same : (_ ∧ _ ∧ True) ↔ m.Fits :=
      ⟨fun h => ⟨lengths, names, h.1, h.2.1⟩, fun h => ⟨h.imports, h.code, trivial⟩⟩
    simp only [framed.2 names, isAscending_sections, entryCount_sections lengths, Bool.not_true,
      Bool.false_eq_true, if_false, ne_eq, not_true_eq_false]
    exact read.congr same
  · have unframed : m.sections.all Section.isFramed = false := by
      simpa using fun all => names (framed.1 all)
    simp only [unframed, Bool.not_false, if_true]
    exact ⟨fun fits => absurd fits.customs names, fun _ => rfl⟩

/-- The outline of a module is read from its binary form if the module fits. -/
theorem ofBytes?_encode (m : Module) : Gives (Outline.ofBytes? m.encode) m.Fits m.outline := by
  have cut := readSections_sections m.sections
  have read : Outline.ofBytes? m.encode =
      (readSections (m.sections.flatMap Section.encode)).bind Outline.ofSections? := by
    rw [encode_eq_sections]
    rfl
  rw [read]
  by_cases lengths : ∀ s ∈ m.sections, s.content.length < indexLimit
  · rw [cut.gives lengths]
    exact ofSections?_sections lengths
  · rw [cut.fails lengths]
    exact ⟨fun fits => absurd fits.sections lengths, fun _ => rfl⟩

end Module

end Workbench.Wasm
