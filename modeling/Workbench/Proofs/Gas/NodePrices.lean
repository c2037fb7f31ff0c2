import Workbench.Proofs.Check.Reordering
import Workbench.Proofs.Gas.Prices

/-!
# The price of a text

The estimate of the module of a contract can be read off the text of the contract: each statement
and each expression has a price that depends on its kind alone, and so has each function. Access to
storage costs what the host charges and the constant that names the slot. A sum over nodes does not
know of names, of further sections, of numbers or of an order.
-/

namespace Workbench.Gas

open Lang (Ty UnaryOp BinaryOp Builtin)
open Lowered (Expr Stmt Function Contract Node)
open Codegen (Layout CoversBlock exprUses stmtUses blockUses generate)
open Wasm (Custom Gives Module)
open Check (Accepts analyze)

/-! ### Kinds of nodes -/

/-- What the price of a node depends on, or that of a function besides its nodes. -/
inductive NodeKind where
  | literal
  | local
  | storageRead
  | unary (op : UnaryOp)
  | binary (op : BinaryOp)
  | shift
  | call
  | builtin (kind : Builtin)
  /-- An assignment to a local, the first one included. -/
  | assign
  | storageWrite
  | conditional (alternative : Bool)
  | loop
  | returns
  | require
  /-- An expression that stands alone; a value is dropped. -/
  | evaluate (dropped : Bool)
  | function (result : Bool)
  deriving DecidableEq, Repr

def exprKind : Expr → NodeKind
  | .int .. | .bool .. => .literal
  | .var .. => .local
  | .slot .. => .storageRead
  | .unary op .. => .unary op
  | .binary op .. => .binary op
  | .shl .. => .shift
  | .call .. => .call
  | .builtin kind .. => .builtin kind

def stmtKind : Stmt → NodeKind
  | .letIn .. | .set .. => .assign
  | .store .. => .storageWrite
  | .ifThen _ _ no _ => .conditional !no.isEmpty
  | .whileDo .. => .loop
  | .returns .. => .returns
  | .require .. => .require
  | .eval value _ => .evaluate value.type.hasValue

def nodeKind : Node → NodeKind
  | .expr e => exprKind e
  | .stmt st => stmtKind st

def functionKinds (f : Function) : List NodeKind :=
  .function f.result.hasValue :: f.nodes.map nodeKind

/-- The kinds of all functions of a contract and of all nodes in them. -/
def contractKinds (c : Contract) : List NodeKind :=
  c.functions.flatMap functionKinds

/-! ### Prices of kinds -/

/-- What a node of a kind costs without what is below it. -/
def kindPrice (s : Schedule) : NodeKind → Nat
  | .literal | .local => s.veryLow
  | .storageRead => s.veryLow + builtinPrice s .storageLoad
  | .unary .neg => s.veryLow + s.veryLow
  | .unary .not => s.veryLow
  | .binary op => binaryPrice s op
  | .shift => s.veryLow + s.veryLow
  | .call => s.high
  | .builtin kind => builtinPrice s kind
  | .assign => s.veryLow
  | .storageWrite => s.veryLow + builtinPrice s .storageStore
  | .conditional alternative => s.high + (if alternative then s.zero else 0) + s.zero
  | .loop => s.veryLow + s.high + s.mid + (s.zero + s.zero + s.zero + s.zero)
  | .returns => s.base
  | .require => s.veryLow + s.high + s.zero + s.zero
  | .evaluate dropped => if dropped then s.base else 0
  | .function result => (if result then s.zero else 0) + s.zero

/-! ### Sums over nodes -/

section

variable (s : Schedule)

theorem exprsPrice_eq_of_forall {args : List Expr}
    (each : ∀ a ∈ args, exprPrice s a = total (kindPrice s) (a.nodes.map exprKind)) :
    exprsPrice s args = total (kindPrice s) ((Expr.nodesOfList args).map exprKind) := by
  induction args with
  | nil => rfl
  | cons a rest ih =>
      obtain ⟨first, others⟩ := List.forall_mem_cons.1 each
      rw [exprsPrice, Expr.nodesOfList, List.map_append, total_append, first, ih others]

theorem exprPrice_eq (e : Expr) :
    exprPrice s e = total (kindPrice s) (e.nodes.map exprKind) := by
  induction e with
  | unary op operand span ih =>
      cases op with
      | neg => simp [exprPrice, Expr.nodes, exprKind, kindPrice, ih, Nat.add_assoc]
      | not => simp [exprPrice, Expr.nodes, exprKind, kindPrice, ih]
  | binary op lhs rhs span ihl ihr =>
      simp [exprPrice, Expr.nodes, exprKind, kindPrice, ihl, ihr, Nat.add_assoc]
  | shl value amount span ih =>
      simp [exprPrice, Expr.nodes, exprKind, kindPrice, ih, Nat.add_assoc]
  | call function args result span ih =>
      simp [exprPrice, Expr.nodes, exprKind, kindPrice, exprsPrice_eq_of_forall s ih]
  | builtin kind args span ih =>
      simp [exprPrice, Expr.nodes, exprKind, kindPrice, exprsPrice_eq_of_forall s ih]
  | _ => rfl

theorem exprPrice_eq_nodes (e : Expr) :
    exprPrice s e = total (kindPrice s) ((e.nodes.map Node.expr).map nodeKind) := by
  rw [exprPrice_eq, List.map_map]
  rfl

theorem blockPrice_eq_of_forall {body : List Stmt}
    (each : ∀ st ∈ body, stmtPrice s st = total (kindPrice s) (st.nodes.map nodeKind)) :
    blockPrice s body = total (kindPrice s) ((Stmt.nodesOfBlock body).map nodeKind) := by
  induction body with
  | nil => rfl
  | cons st rest ih =>
      obtain ⟨first, others⟩ := List.forall_mem_cons.1 each
      rw [blockPrice, Stmt.nodesOfBlock, List.map_append, total_append, first, ih others]

theorem stmtPrice_eq (st : Stmt) :
    stmtPrice s st = total (kindPrice s) (st.nodes.map nodeKind) := by
  induction st with
  | ifThen cond yes no span ihy ihn =>
      -- without an alternative there is neither its mark nor anything in it
      have onNo : (if no.isEmpty then 0 else s.zero + blockPrice s no) =
          (if !no.isEmpty then s.zero else 0) + blockPrice s no := by
        cases no <;> rfl
      rw [stmtPrice, onNo, blockPrice_eq_of_forall s ihy, blockPrice_eq_of_forall s ihn]
      simp only [Stmt.nodes, List.map_cons, List.map_append, total_cons, total_append, nodeKind,
        stmtKind, kindPrice, exprPrice_eq_nodes]
      omega
  | whileDo cond body span ih =>
      simp only [stmtPrice, Stmt.nodes, List.map_cons, List.map_append, total_cons, total_append,
        nodeKind, stmtKind, kindPrice, exprPrice_eq_nodes, blockPrice_eq_of_forall s ih]
      omega
  | returns value span =>
      cases value with
      | none => rfl
      | some value =>
          rw [stmtPrice, Nat.add_comm, exprPrice_eq_nodes]
          rfl
  | require cond span =>
      simp only [stmtPrice, Stmt.nodes, List.map_cons, total_cons, nodeKind, stmtKind, kindPrice,
        exprPrice_eq_nodes]
      omega
  | store slot value span =>
      simp only [stmtPrice, Stmt.nodes, List.map_cons, total_cons, nodeKind, stmtKind, kindPrice,
        exprPrice_eq_nodes]
      omega
  | _ =>
      rw [stmtPrice, Nat.add_comm, exprPrice_eq_nodes]
      rfl

theorem functionPrice_eq (f : Function) :
    functionPrice s f = total (kindPrice s) (functionKinds f) := by
  rw [functionPrice, functionKinds, total_cons, kindPrice, Function.nodes,
    blockPrice_eq_of_forall s fun st _ => stmtPrice_eq s st]
  omega

/-- The price of a contract is the sum over its functions and their nodes. -/
theorem contractPrice_eq (c : Contract) :
    contractPrice s c = total (kindPrice s) (contractKinds c) := by
  rw [contractPrice, contractKinds]
  induction c.functions with
  | nil => rfl
  | cons f rest ih => rw [functionsPrice, List.flatMap_cons, total_append, functionPrice_eq, ih]

end

/-! ### Other numbers -/

section

variable (σ : Nat → Nat)

theorem exprKind_renumber (e : Expr) : exprKind (e.renumber σ) = exprKind e := by
  cases e <;> rfl

theorem nodeKind_renumber (n : Node) : nodeKind (n.renumber σ) = nodeKind n := by
  cases n with
  | expr e => exact exprKind_renumber σ e
  | stmt st =>
      cases st with
      | ifThen cond yes no span => cases no <;> rfl
      | eval value span =>
          have type := value.type_renumber σ
          exact congrArg (fun type : Ty => NodeKind.evaluate type.hasValue) type
      | _ => rfl

theorem functionKinds_renumber (f : Function) : functionKinds (f.renumber σ) = functionKinds f := by
  have nodes : (f.renumber σ).nodes.map nodeKind = f.nodes.map nodeKind := by
    rw [f.nodes_renumber, List.map_map]
    exact List.map_congr_left fun n _ => nodeKind_renumber σ n
  rw [functionKinds, functionKinds, nodes]
  rfl

theorem exprUses_renumber (e : Expr) : exprUses (e.renumber σ) = exprUses e := by
  have use : Codegen.nodeUse? ∘ Expr.renumber σ = Codegen.nodeUse? := by
    funext node
    cases node <;> rfl
  rw [exprUses, exprUses, e.nodes_renumber, List.filterMap_map, use]

theorem blockUses_renumber_of_forall {body : List Stmt}
    (each : ∀ st ∈ body, stmtUses (st.renumber σ) = stmtUses st) :
    blockUses (Stmt.renumberBlock σ body) = blockUses body := by
  induction body with
  | nil => rfl
  | cons st rest ih =>
      obtain ⟨first, others⟩ := List.forall_mem_cons.1 each
      rw [Stmt.renumberBlock, blockUses, blockUses, first, ih others]

theorem stmtUses_renumber (st : Stmt) : stmtUses (st.renumber σ) = stmtUses st := by
  induction st with
  | ifThen cond yes no span ihy ihn =>
      simp only [Stmt.renumber, stmtUses, exprUses_renumber, blockUses_renumber_of_forall σ ihy,
        blockUses_renumber_of_forall σ ihn]
  | whileDo cond body span ih =>
      simp only [Stmt.renumber, stmtUses, exprUses_renumber, blockUses_renumber_of_forall σ ih]
  | returns value span =>
      cases value with
      | none => rfl
      | some value => exact exprUses_renumber σ value
  | _ => simp only [Stmt.renumber, stmtUses, exprUses_renumber]

theorem covers_renumber {layout : Layout} {f : Function} (covers : CoversBlock layout f.body) :
    CoversBlock layout (f.renumber σ).body := by
  rw [CoversBlock, Function.renumber, blockUses_renumber_of_forall σ fun st _ =>
    stmtUses_renumber σ st]
  exact covers

end

/-- The module of a contract with the imports of a layout, in its order, with functions called by
other numbers, and with further sections. -/
def renumbered (layout : Layout) (σ : Nat → Nat) (debugNames : Bool) (customs : List Custom)
    (c : Contract) : Module :=
  let plain := generate debugNames c
  { plain with
    imports := layout.imports.map fun kind =>
      ⟨Builtin.importModule, kind.importName,
        Codegen.typeIndex plain.types (Codegen.builtinType kind)⟩
    funcs := (c.functions.map (Function.renumber σ)).map (Codegen.functionEntry layout plain.types)
    customs }

theorem outlineCost_renumbered (s : Schedule) {layout : Layout} (σ : Nat → Nat) (debugNames : Bool)
    (customs : List Custom) {c : Contract}
    (covers : ∀ f ∈ c.functions, CoversBlock layout f.body) :
    outlineCost s (renumbered layout σ debugNames customs c).outline =
      total (kindPrice s) (contractKinds c) := by
  have hosts : (renumbered layout σ debugNames customs c).imports.map
      (fun i => s.hostCost i.moduleName i.name) = importPrices s layout := by
    simp [renumbered, importPrices, builtinPrice]
  have renumberedCovers : ∀ f ∈ c.functions.map (Function.renumber σ),
      CoversBlock layout f.body :=
    List.forall_mem_map.2 fun f mem => covers_renumber σ (covers f mem)
  have kinds : contractKinds { c with functions := c.functions.map (Function.renumber σ) } =
      contractKinds c := by
    rw [contractKinds, contractKinds, List.flatMap_map]
    exact congrArg (fun kinds => c.functions.flatMap kinds)
      (funext fun f => functionKinds_renumber σ f)
  rw [outlineCost_outline, hosts]
  show operatorsCost s _ ((((c.functions.map _).map _).map _).flatten) = _
  rw [operatorsCost_functionEntries s _ renumberedCovers, ← kinds, ← contractPrice_eq]
  rfl

/-! ### Estimates -/

/-- In another order the functions of a contract have the same kinds of nodes. -/
theorem contractKinds_reorder {source reordered : Syntax.Contract} (accepted : Accepts source)
    (functions : reordered.functions.Perm source.functions)
    (storage : reordered.storage = source.storage) :
    (contractKinds (analyze reordered).contract).Perm
      (contractKinds (analyze source).contract) := by
  have perm := (accepted.reorder functions storage).2.flatMap_right functionKinds
  rw [List.flatMap_map] at perm
  simp only [functionKinds_renumber] at perm
  exact perm

/-- The estimate of the module of an accepted contract, whatever names and further sections it has,
is the sum of the prices of the kinds of its functions and of all their nodes, up to the cap. It is
the same with other numbers for imports and functions, and for the contract with its functions in
another order. -/
theorem estimate_is_price_of_text {source : Syntax.Contract} (accepted : Accepts source)
    (s : Schedule) :
    let c := (analyze source).contract
    let gas := min cap (total (kindPrice s) (contractKinds c))
    (∀ (debugNames : Bool) (customs : List Custom),
      let m := { generate debugNames c with customs }
      Gives (estimate? s m.encode) m.Fits gas) ∧
    (∀ (layout : Layout) (σ : Nat → Nat) (debugNames : Bool) (customs : List Custom),
      (∀ f ∈ c.functions, CoversBlock layout f.body) →
      let m := renumbered layout σ debugNames customs c
      Gives (estimate? s m.encode) m.Fits gas) ∧
    (∀ reordered : Syntax.Contract, reordered.functions.Perm source.functions →
      reordered.storage = source.storage →
      Accepts reordered ∧ ∀ (debugNames : Bool) (customs : List Custom),
        let m := { generate debugNames (analyze reordered).contract with customs }
        Gives (estimate? s m.encode) m.Fits gas) := by
  have generated (c : Contract) (debugNames : Bool) (customs : List Custom) :
      outlineCost s { generate debugNames c with customs }.outline =
        total (kindPrice s) (contractKinds c) :=
    (outlineCost_generate s debugNames c).trans (contractPrice_eq s c)
  intro c gas
  refine ⟨fun debugNames customs => ?_, fun layout σ debugNames customs covers => ?_,
    fun reordered functions storage => ⟨(accepted.reorder functions storage).1,
      fun debugNames customs => ?_⟩⟩
  · have estimate := estimate?_encode s { generate debugNames c with customs }
    rwa [generated] at estimate
  · have estimate := estimate?_encode s (renumbered layout σ debugNames customs c)
    rwa [outlineCost_renumbered s σ debugNames customs covers] at estimate
  · have estimate := estimate?_encode s
      { generate debugNames (analyze reordered).contract with customs }
    rwa [generated, total_perm _ (contractKinds_reorder accepted functions storage)] at estimate

/-- A contract with a variable and the given functions without parameters, each of which returns a
number. -/
def answering (values : List (String × Syntax.Expr)) : Syntax.Contract :=
  let span : Source.Span := ⟨0, 0⟩
  let name (text : String) : Syntax.Name := ⟨text, span⟩
  { name := name "T"
    storage := [⟨name "x", .i32, span⟩]
    functions := values.map fun (text, value) =>
      { name := name text
        params := []
        result := some .i32
        isPublic := false
        isView := false
        body := .mk [.returns (some value) span] span
        span }
    span }

/-- Two functions of which one calls the other, with a section of their own, with other numbers, and
in the other order. -/
theorem estimate_is_price_of_text_calling :
    let one : String × Syntax.Expr := ("one", .call ⟨"two", ⟨0, 0⟩⟩ [] ⟨0, 0⟩)
    let two : String × Syntax.Expr := ("two", .name "x" ⟨0, 0⟩)
    let c := (analyze (answering [one, two])).contract
    let c' := (analyze (answering [two, one])).contract
    let customs : List Custom := [⟨"seal", [1, 2]⟩]
    ∃ gas, estimate? .standard { generate true c with customs }.encode = some gas ∧
      estimate? .standard (renumbered ⟨Builtin.all⟩ (· + 1) false customs c).encode = some gas ∧
      estimate? .standard { generate false c' with customs }.encode = some gas := by
  intro one two c c' customs
  have accepted : Accepts (answering [one, two]) := (Check.accepts_iff _).2 (by decide +kernel)
  have covers (body : List Stmt) : CoversBlock ⟨Builtin.all⟩ body := fun kind _ => kind.mem_all
  obtain ⟨named, numbered, reordered⟩ := estimate_is_price_of_text accepted .standard
  have ofNamed := named true customs
  have ofNumbered := numbered ⟨Builtin.all⟩ (· + 1) false customs fun f _ => covers f.body
  have ofReordered := (reordered (answering [two, one]) (.swap ..) rfl).2 false customs
  refine ⟨_, ofNamed.gives (ofNamed.isSome_iff.1 ?_),
    ofNumbered.gives (ofNumbered.isSome_iff.1 ?_), ofReordered.gives (ofReordered.isSome_iff.1 ?_)⟩
  · decide +kernel
  · decide +kernel
  · decide +kernel

/-- Under the standard prices no price of each kind that leaves accesses to storage with what the
host charges gives all estimates. -/
theorem reads_cost_more_than_the_host :
    ¬∃ price : NodeKind → Nat,
      price .storageRead = builtinPrice .standard .storageLoad ∧
      price .storageWrite = builtinPrice .standard .storageStore ∧
      (∀ kind, price (.builtin kind) = builtinPrice .standard kind) ∧
      price .call = Schedule.standard.high ∧
      ∀ source, Accepts source →
        estimate? .standard (generate false (analyze source).contract).encode =
          some (min cap (total price (contractKinds (analyze source).contract))) := by
  rintro ⟨price, read, -, host, -, estimates⟩
  -- the two differ in one node, which pins down what the other two kinds cost
  let caller := answering [("f", .call ⟨"caller", ⟨0, 0⟩⟩ [] ⟨0, 0⟩)]
  let slot := answering [("f", .name "x" ⟨0, 0⟩)]
  have ofCaller := estimates caller ((Check.accepts_iff _).2 (by decide +kernel))
  have ofSlot := estimates slot ((Check.accepts_iff _).2 (by decide +kernel))
  have callerKinds : contractKinds (analyze caller).contract =
      [.function true, .returns, .builtin .caller] := by decide +kernel
  have slotKinds : contractKinds (analyze slot).contract =
      [.function true, .returns, .storageRead] := by decide +kernel
  have callerGas : estimate? .standard (generate false (analyze caller).contract).encode =
      some 4 := by decide +kernel
  have slotGas : estimate? .standard (generate false (analyze slot).contract).encode =
      some 829 := by decide +kernel
  have bound : 829 < cap := by decide
  have hostCaller : builtinPrice .standard .caller = 2 := by decide +kernel
  have hostLoad : builtinPrice .standard .storageLoad = 824 := by decide +kernel
  rw [callerGas, callerKinds] at ofCaller
  rw [slotGas, slotKinds] at ofSlot
  have ofCaller := Option.some.inj ofCaller
  have ofSlot := Option.some.inj ofSlot
  simp only [total_cons, total_nil, host, read, hostCaller, hostLoad] at ofCaller ofSlot
  omega

end Workbench.Gas
