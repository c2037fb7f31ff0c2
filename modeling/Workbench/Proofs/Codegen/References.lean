import Workbench.Proofs.Codegen.Linked
import Workbench.Proofs.Lowered.References
import Workbench.Proofs.Wasm.References

/-!
# References in generated code

The code of a function refers to what the function refers to, in the same order: the import of an
operation, the code of another function, or the local for a variable. Nothing else in it can reach
the host, so a set of references that is closed in a contract is closed in its module.
-/

namespace Workbench.Codegen

open Lang (BinaryOp Builtin Host)
open Lowered (Expr Stmt Function Contract Reference referencesOfArgs)
open Wasm (Instr Instance referencesOf_append)

/-- What a reference becomes in a module. -/
@[simp] def Layout.reference (layout : Layout) : Reference → Wasm.Reference
  | .operation kind => .function (layout.importIndex kind)
  | .function index => .function (layout.functionIndex index)
  | .var index => .var index

section

variable (layout : Layout)

theorem references_binaryCode (op : BinaryOp) (lhs rhs : List Instr) :
    Wasm.referencesOf (binaryCode op lhs rhs) = Wasm.referencesOf lhs ++ Wasm.referencesOf rhs := by
  cases op <;> simp [binaryCode, numOp?]

theorem references_exprsCode {args : List Expr}
    (each : ∀ a ∈ args, Wasm.referencesOf (exprCode layout a) = a.references.map layout.reference) :
    Wasm.referencesOf (exprsCode layout args) = (referencesOfArgs args).map layout.reference := by
  induction args with
  | nil => rfl
  | cons e es ih =>
      obtain ⟨first, others⟩ := List.forall_mem_cons.1 each
      rw [exprsCode, referencesOf_append, first, ih others, referencesOfArgs, List.map_append]

theorem references_exprCode (e : Expr) :
    Wasm.referencesOf (exprCode layout e) = e.references.map layout.reference := by
  induction e with
  | unary op operand span ih => cases op <;> simp [exprCode, ih, Expr.references]
  | binary op lhs rhs span ihl ihr =>
      rw [exprCode, references_binaryCode, ihl, ihr, Expr.references, List.map_append]
  | shl value amount span ih => simp [exprCode, ih, Expr.references]
  | call function args result span ih =>
      simp [exprCode, references_exprsCode layout ih, Expr.references]
  | builtin kind args span ih =>
      simp [exprCode, references_exprsCode layout ih, Expr.references]
  | _ => rfl

theorem references_blockCode_of_forall {body : List Stmt}
    (each : ∀ s ∈ body, Wasm.referencesOf (stmtCode layout s) = s.references.map layout.reference) :
    Wasm.referencesOf (blockCode layout body) =
      (Lowered.referencesOf body).map layout.reference := by
  induction body with
  | nil => rfl
  | cons s rest ih =>
      obtain ⟨first, others⟩ := List.forall_mem_cons.1 each
      rw [blockCode, referencesOf_append, first, ih others, Lowered.referencesOf, List.map_append]

theorem references_stmtCode (s : Stmt) :
    Wasm.referencesOf (stmtCode layout s) = s.references.map layout.reference := by
  induction s with
  | ifThen cond yes no span ihy ihn =>
      simp [stmtCode, references_exprCode, Stmt.references,
        references_blockCode_of_forall layout ihy, references_blockCode_of_forall layout ihn]
  | whileDo cond body span ih =>
      simp [stmtCode, references_exprCode, Stmt.references,
        references_blockCode_of_forall layout ih]
  | returns value span =>
      cases value <;> simp [stmtCode, references_exprCode, Stmt.references]
  | store slot value span =>
      simp [stmtCode, references_exprCode, Stmt.references]
  | eval value span =>
      by_cases has : value.type.hasValue <;>
        simp [stmtCode, has, references_exprCode, Stmt.references]
  | _ => simp [stmtCode, references_exprCode, Stmt.references]

/-- The code of a function refers to what the function refers to. -/
theorem references_functionCode (f : Function) :
    Wasm.referencesOf (functionCode layout f) =
      (Lowered.referencesOf f.body).map layout.reference := by
  rw [functionCode, referencesOf_append, references_blockCode_of_forall layout fun s _ =>
    references_stmtCode layout s]
  split <;> simp

end

/-! ### Operations that are imported -/

/-- The operation of the host that is referred to. -/
def operation? : Reference → Option Builtin
  | .operation kind => some kind
  | .function _ | .var _ => none

theorem operations_of_referencesOfArgs {args : List Expr}
    (each : ∀ a ∈ args, a.references.filterMap operation? = exprUses a) :
    (referencesOfArgs args).filterMap operation? = (Expr.nodesOfList args).filterMap nodeUse? := by
  induction args with
  | nil => rfl
  | cons e es ih =>
      obtain ⟨first, others⟩ := List.forall_mem_cons.1 each
      rw [referencesOfArgs, Expr.nodesOfList, List.filterMap_append, List.filterMap_append, first,
        ih others, exprUses]

/-- The operations that an expression needs are those that it refers to. -/
theorem operations_of_references (e : Expr) : e.references.filterMap operation? = exprUses e := by
  induction e with
  | unary op operand span ih =>
      simp [Expr.references, exprUses, Expr.nodes, nodeUse?, ih]
  | binary op lhs rhs span ihl ihr =>
      simp [Expr.references, exprUses, Expr.nodes, nodeUse?, ihl, ihr]
  | shl value amount span ih =>
      simp [Expr.references, exprUses, Expr.nodes, nodeUse?, ih]
  | call function args result span ih =>
      simp only [Expr.references, exprUses, Expr.nodes, List.filterMap_append,
        operations_of_referencesOfArgs ih]
      rfl
  | builtin kind args span ih =>
      simp [Expr.references, exprUses, Expr.nodes, nodeUse?, operation?,
        operations_of_referencesOfArgs ih]
  | _ => rfl

theorem mem_exprUses_iff_reference {e : Expr} {kind : Builtin} :
    kind ∈ exprUses e ↔ .operation kind ∈ e.references := by
  rw [← operations_of_references, List.mem_filterMap]
  constructor
  · rintro ⟨_ | _ | _, mem, same⟩
    · cases same
      exact mem
    · contradiction
    · contradiction
  · exact fun mem => ⟨_, mem, rfl⟩

theorem mem_blockUses_iff_of_forall {body : List Stmt} {kind : Builtin}
    (each : ∀ s ∈ body, kind ∈ stmtUses s ↔ .operation kind ∈ s.references) :
    kind ∈ blockUses body ↔ .operation kind ∈ Lowered.referencesOf body := by
  induction body with
  | nil => simp [blockUses, Lowered.referencesOf]
  | cons s rest ih =>
      obtain ⟨first, others⟩ := List.forall_mem_cons.1 each
      simp [blockUses, Lowered.referencesOf, first, ih others]

theorem mem_stmtUses_iff_reference {s : Stmt} {kind : Builtin} :
    kind ∈ stmtUses s ↔ .operation kind ∈ s.references := by
  induction s with
  | ifThen cond yes no span ihy ihn =>
      simp [stmtUses, Stmt.references, mem_exprUses_iff_reference, mem_blockUses_iff_of_forall ihy,
        mem_blockUses_iff_of_forall ihn]
  | whileDo cond body span ih =>
      simp [stmtUses, Stmt.references, mem_exprUses_iff_reference, mem_blockUses_iff_of_forall ih]
  | returns value span =>
      cases value <;> simp [stmtUses, Stmt.references, mem_exprUses_iff_reference]
  | store slot value span =>
      simp [stmtUses, Stmt.references, mem_exprUses_iff_reference, or_comm]
  | _ => simp [stmtUses, Stmt.references, mem_exprUses_iff_reference]

/-- The operations that statements need are those that they refer to. -/
theorem mem_blockUses_iff_reference {body : List Stmt} {kind : Builtin} :
    kind ∈ blockUses body ↔ .operation kind ∈ Lowered.referencesOf body :=
  mem_blockUses_iff_of_forall fun _ _ => mem_stmtUses_iff_reference

/-! ### Runs of modules -/

section

variable {State : Type} {Inv : State → Prop} {host : Host State} {within : Reference → Prop}

/-- What a reference becomes that is among some and has a place in the module. -/
def Reached (c : Contract) (within : Reference → Prop) (reference : Wasm.Reference) : Prop :=
  ∃ r, within r ∧ (∀ kind, r = .operation kind → kind ∈ imports c) ∧
    (Layout.mk (imports c)).reference r = reference

theorem hostFunction_preserves {kind : Builtin} (h : host.Preserves Inv kind)
    (args : List Lang.Word) {state : State} (inv : Inv state) :
    Inv ((hostFunction host kind).run args state).2 := by
  have served := h args state inv
  unfold hostFunction
  dsimp only
  rcases hr : host.serve ⟨kind, args⟩ state with ⟨_ | value, state'⟩ <;>
    · rw [hr] at served
      exact served

/-- A function of a generated module is one of the contract. -/
theorem exists_of_func? {debugNames : Bool} {c : Contract} {index : Nat} {g : Wasm.Func}
    {type : Wasm.FuncType}
    (found : (linked debugNames c host).func? ((Layout.mk (imports c)).functionIndex index) =
      some (g, type)) :
    ∃ f, c.functions[index]? = some f ∧ g.body = functionCode ⟨imports c⟩ f := by
  cases known : c.functions[index]? with
  | none =>
      simp [Instance.func?, linked, generate, Layout.functionIndex, known] at found
  | some f =>
      rw [func?_functionIndex debugNames c host known] at found
      cases found
      exact ⟨f, rfl, rfl⟩

/-- What a closed set of references preserves in a contract, it preserves in the module. -/
theorem linked_preserves (debugNames : Bool) {c : Contract} (closed : c.Closed within)
    (serves : ∀ kind, within (.operation kind) → host.Preserves Inv kind) :
    (linked debugNames c host).Preserves Inv (Reached c within) := by
  constructor
  · rintro index function ⟨r, inside, imported, same⟩ found args state inv
    cases r with
    | operation kind =>
        cases same
        rw [hosts_importIndex debugNames c host (imported kind rfl)] at found
        cases found
        exact hostFunction_preserves (serves kind inside) args inv
    | function index =>
        cases same
        rw [hosts_functionIndex] at found
        contradiction
    | var index => contradiction
  · rintro index g type ⟨r, inside, imported, same⟩ noHost found reference refers
    cases r with
    | operation kind =>
        cases same
        rw [hosts_importIndex debugNames c host (imported kind rfl)] at noHost
        contradiction
    | function index =>
        cases same
        obtain ⟨f, known, body⟩ := exists_of_func? found
        rw [body, references_functionCode] at refers
        obtain ⟨r, mem, rfl⟩ := List.mem_map.1 refers
        refine ⟨r, closed index f inside known r mem, ?_, rfl⟩
        rintro kind rfl
        exact mem_imports (List.mem_of_getElem? known) (mem_blockUses_iff_reference.2 mem)
    | var index => contradiction

/-- A call of a function of the module preserves what all operations preserve that the function
refers to, directly or by its calls. -/
theorem invoke_preserves (debugNames : Bool) {c : Contract} (closed : c.Closed within)
    (serves : ∀ kind, within (.operation kind) → host.Preserves Inv kind) {index : Nat}
    (inside : within (.function index)) (fuel depth : Nat) (args : List Lang.Word) {state : State}
    (inv : Inv state) :
    Inv ((linked debugNames c host).invoke fuel depth ((Layout.mk (imports c)).functionIndex index)
      args state).2 :=
  Instance.invoke_preserves (linked_preserves debugNames closed serves)
    ⟨.function index, inside, by simp, rfl⟩ (hosts_functionIndex debugNames c host index) fuel depth
    args inv

end

end Workbench.Codegen
