import Workbench.Codegen.Linking
import Workbench.Proofs.Lowered.Typing

/-!
# Linking generated modules

A generated module can be linked with any host, and every number in its code means what it was
written for: the number of an import is the operation that it was imported for, and that of a
function of the contract the code of this function with its type.
-/

namespace Workbench.Codegen

open Source (Span)
open Lang (Ty BinaryOp Builtin Host)
open Lowered (Expr Stmt Function Contract)
open Wasm (FuncType Instr NumOp Instance)

/-! ### Positions -/

theorem getElem?_idxOf? {α : Type} [BEq α] [LawfulBEq α] {xs : List α} {a : α} (h : a ∈ xs) :
    xs[(xs.idxOf? a).getD 0]? = some a := by
  induction xs with
  | nil => contradiction
  | cons x xs ih =>
      rw [List.idxOf?_cons]
      by_cases same : x = a
      · simp [same]
      · have found := ih ((List.mem_cons.1 h).resolve_left (Ne.symm same))
        obtain ⟨i, hi⟩ : ∃ i, xs.idxOf? a = some i := by
          rw [← Option.isSome_iff_exists, List.isSome_idxOf?]
          exact (List.mem_cons.1 h).resolve_left (Ne.symm same)
        rw [hi] at found
        simpa [same, hi] using found

theorem mem_foldl_intern {used table : List FuncType} {type : FuncType}
    (h : type ∈ table ∨ type ∈ used) : type ∈ used.foldl intern table := by
  induction used generalizing table with
  | nil => exact h.resolve_right (fun h => nomatch h)
  | cons t used ih =>
      rw [List.foldl_cons]
      apply ih
      unfold intern
      rcases h with old | h
      · left
        split
        · exact old
        · exact List.mem_append_left _ old
      · rcases List.mem_cons.1 h with rfl | later
        · left
          split
          case isTrue present => exact List.contains_iff_mem.1 present
          case isFalse => exact List.mem_append_right _ List.mem_cons_self
        · exact .inr later

theorem getElem?_typeIndex {used : List FuncType} {type : FuncType} (h : type ∈ used) :
    (typeTable used)[typeIndex (typeTable used) type]? = some type :=
  getElem?_idxOf? (mem_foldl_intern (.inr h))

/-! ### Operators -/

/-- An operator with an instruction of its own finds both operands in front of it. -/
theorem binaryCode_of_numOp {op : BinaryOp} {num : NumOp} {lhs rhs : List Instr}
    (h : numOp? op = some num) : binaryCode op lhs rhs = lhs ++ rhs ++ [.num num] := by
  cases op <;> first | contradiction | (cases h; rfl)

/-! ### Imports -/

theorem ofImportName?_importName (kind : Builtin) :
    Builtin.ofImportName? kind.importName = some kind := by
  cases kind <;> rfl

/-- All operations that the code of a contract asks for are imported. -/
theorem mem_imports {c : Contract} {f : Function} (hf : f ∈ c.functions) {kind : Builtin}
    (h : kind ∈ blockUses f.body) : kind ∈ imports c := by
  refine List.mem_filter.2 ⟨Builtin.mem_all kind, ?_⟩
  rw [List.contains_iff_mem]
  exact List.mem_flatMap.2 ⟨f, hf, h⟩

section

variable (debugNames : Bool) (c : Contract)

theorem type?_builtinType {kind : Builtin} (h : kind ∈ imports c) :
    (generate debugNames c).type? (typeIndex (generate debugNames c).types (builtinType kind)) =
      some (builtinType kind) :=
  getElem?_typeIndex (List.mem_append_left _ (List.mem_map_of_mem h))

theorem mapM_eq_some {α β : Type} {f : β → Option α} {g : α → β} {xs : List α}
    (h : ∀ a ∈ xs, f (g a) = some a) : (xs.map g).mapM f = some xs := by
  induction xs with
  | nil => rfl
  | cons a xs ih =>
      obtain ⟨first, others⟩ := List.forall_mem_cons.1 h
      rw [List.map_cons, List.mapM_cons, first, ih others]
      rfl

/-- The imports of a generated module mean the operations that they are there for. -/
theorem importedBuiltins?_generate :
    importedBuiltins? (generate debugNames c) = some (imports c) := by
  refine mapM_eq_some fun kind h => ?_
  have type := type?_builtinType debugNames c h
  unfold importedBuiltin?
  rw [if_pos rfl, ofImportName?_importName]
  simp only [Option.filter_some, beq_iff_eq]
  exact if_pos type

variable {State : Type} (host : Host State)

/-- A generated module with a host for its imports. -/
def linked : Instance State :=
  ⟨generate debugNames c, (imports c).map (hostFunction host)⟩

/-- Any host can be linked with a generated module. -/
theorem link?_generate : link? host (generate debugNames c) = some (linked debugNames c host) := by
  rw [link?, importedBuiltins?_generate]
  rfl

/-! ### Functions -/

theorem hosts_importIndex {kind : Builtin} (h : kind ∈ imports c) :
    (linked debugNames c host).hosts[(Layout.mk (imports c)).importIndex kind]? =
      some (hostFunction host kind) := by
  have found : (imports c)[(Layout.mk (imports c)).importIndex kind]? = some kind :=
    getElem?_idxOf? h
  simp [linked, found]

theorem hosts_functionIndex (index : Nat) :
    (linked debugNames c host).hosts[(Layout.mk (imports c)).functionIndex index]? = none := by
  simp [linked, Layout.functionIndex]

theorem func?_functionIndex {index : Nat} {f : Function} (found : c.functions[index]? = some f) :
    (linked debugNames c host).func? ((Layout.mk (imports c)).functionIndex index) =
      some (functionEntry ⟨imports c⟩ (generate debugNames c).types f, functionType f) := by
  have type : (generate debugNames c).types[typeIndex (generate debugNames c).types
      (functionType f)]? = some (functionType f) :=
    getElem?_typeIndex (List.mem_append_right _
      (List.mem_map_of_mem (List.mem_of_getElem? found)))
  have position : (Layout.mk (imports c)).functionIndex index -
      (linked debugNames c host).hosts.length = index := by
    simp [linked, Layout.functionIndex]
  have func : (linked debugNames c host).module.funcs[index]? =
      some (functionEntry ⟨imports c⟩ (generate debugNames c).types f) := by
    simp only [linked, generate, List.getElem?_map, found, Option.map_some]
  rw [Instance.func?, position, func]
  exact Option.bind_eq_some_iff.2 ⟨_, rfl, Option.bind_eq_some_iff.2 ⟨_, type, rfl⟩⟩

end

/-- The numbers of a layout mean what they stand for in a contract next to a host. -/
structure Links {State : Type} (c : Contract) (host : Host State) (layout : Layout)
    (inst : Instance State) : Prop where
  host : ∀ kind ∈ layout.imports,
    inst.hosts[layout.importIndex kind]? = some (hostFunction host kind)
  noHost : ∀ index, inst.hosts[layout.functionIndex index]? = none
  function : ∀ (index : Nat) (f : Function), c.functions[index]? = some f →
    ∃ table, inst.func? (layout.functionIndex index) =
      some (functionEntry layout table f, functionType f)

theorem linked_links {State : Type} (debugNames : Bool) (c : Contract) (host : Host State) :
    Links c host ⟨imports c⟩ (linked debugNames c host) :=
  ⟨fun _ h => hosts_importIndex debugNames c host h, hosts_functionIndex debugNames c host,
    fun _ _ found => ⟨_, func?_functionIndex debugNames c host found⟩⟩

/-! ### Imports that are needed -/

section

variable {layout : Layout}

/-- The operations that an expression needs are imported. -/
def Covers (layout : Layout) (e : Expr) : Prop :=
  ∀ kind ∈ exprUses e, kind ∈ layout.imports

theorem mem_nodesOfList {args : List Expr} {node : Expr} :
    node ∈ Expr.nodesOfList args ↔ ∃ a ∈ args, node ∈ a.nodes := by
  induction args with
  | nil => simp [Expr.nodesOfList]
  | cons a rest ih => simp [Expr.nodesOfList, ih]

theorem mem_exprUses {e : Expr} {kind : Builtin} :
    kind ∈ exprUses e ↔ ∃ node ∈ e.nodes, nodeUse? node = some kind :=
  List.mem_filterMap

/-- What the nodes of a part need is needed by the whole. -/
theorem Covers.of_nodes {e part : Expr} (h : Covers layout e) (sub : part.nodes ⊆ e.nodes) :
    Covers layout part := by
  intro kind needed
  obtain ⟨node, inPart, use⟩ := mem_exprUses.1 needed
  exact h kind (mem_exprUses.2 ⟨node, sub inPart, use⟩)

theorem mem_nodes_self (e : Expr) : e ∈ e.nodes := by
  cases e <;> simp [Expr.nodes]

theorem Covers.self {e : Expr} (h : Covers layout e) {kind : Builtin}
    (use : nodeUse? e = some kind) : kind ∈ layout.imports :=
  h kind (mem_exprUses.2 ⟨e, mem_nodes_self e, use⟩)

theorem nodes_subset_nodesOfList {args : List Expr} {a : Expr} (mem : a ∈ args) :
    a.nodes ⊆ Expr.nodesOfList args :=
  fun _ h => mem_nodesOfList.2 ⟨a, mem, h⟩

/-- The operations that a statement needs are imported. -/
def CoversStmt (layout : Layout) (s : Stmt) : Prop :=
  ∀ kind ∈ stmtUses s, kind ∈ layout.imports

/-- The operations that statements need are imported. -/
def CoversBlock (layout : Layout) (body : List Stmt) : Prop :=
  ∀ kind ∈ blockUses body, kind ∈ layout.imports

theorem CoversBlock.cons {s : Stmt} {rest : List Stmt}
    (h : CoversBlock layout (s :: rest)) : CoversStmt layout s ∧ CoversBlock layout rest :=
  ⟨fun kind needed => h kind (List.mem_append_left _ needed),
    fun kind needed => h kind (List.mem_append_right _ needed)⟩

theorem CoversStmt.ifThen {cond : Expr} {yes no : List Stmt} {span : Span}
    (h : CoversStmt layout (.ifThen cond yes no span)) :
    Covers layout cond ∧ CoversBlock layout yes ∧ CoversBlock layout no := by
  have h : ∀ kind ∈ exprUses cond ++ blockUses yes ++ blockUses no, kind ∈ layout.imports := h
  refine ⟨fun kind needed => h kind ?_, fun kind needed => h kind ?_, fun kind needed => h kind ?_⟩
  · exact List.mem_append_left _ (List.mem_append_left _ needed)
  · exact List.mem_append_left _ (List.mem_append_right _ needed)
  · exact List.mem_append_right _ needed

theorem CoversStmt.whileDo {cond : Expr} {body : List Stmt} {span : Span}
    (h : CoversStmt layout (.whileDo cond body span)) :
    Covers layout cond ∧ CoversBlock layout body := by
  have h : ∀ kind ∈ exprUses cond ++ blockUses body, kind ∈ layout.imports := h
  exact ⟨fun kind needed => h kind (List.mem_append_left _ needed),
    fun kind needed => h kind (List.mem_append_right _ needed)⟩

end

/-! ### Types -/

theorem foldl_words {α : Type} (type : α → Ty) {xs : List α} (h : ∀ a ∈ xs, (type a).hasValue)
    (n : Nat) : (xs.map fun a => words (type a)).foldl (· + ·) n = n + xs.length := by
  induction xs generalizing n with
  | nil => rfl
  | cons a xs ih =>
      obtain ⟨first, others⟩ := List.forall_mem_cons.1 h
      rw [List.map_cons, List.foldl_cons, ih others, words, if_pos first, List.length_cons]
      omega

theorem params_builtinType (kind : Builtin) : (builtinType kind).params = kind.params.length :=
  (foldl_words id kind.params_hasValue 0).trans (Nat.zero_add _)

theorem params_functionType {c : Contract} {f : Function} (typed : c.TypedFunction f) :
    (functionType f).params = f.paramCount := by
  have count : (functionType f).params = 0 + f.params.length :=
    foldl_words (fun v : Lowered.Variable => v.type) typed.params 0
  rw [count, Nat.zero_add, Lowered.Function.length_params typed]

end Workbench.Codegen
