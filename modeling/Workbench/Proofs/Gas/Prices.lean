import Workbench.Gas.Estimate
import Workbench.Proofs.Codegen.Linked
import Workbench.Proofs.Wasm.Outlines

/-!
# Prices of contracts

The price of a contract is a sum over what stands in its functions: a node of an expression or a
statement has a price of its own, and a host operation that of the host. The estimate of the module
that is generated from it is that price. The numbering of imports and functions does not matter, and
neither do names and further sections.
-/

namespace Workbench.Gas

open Lang (UnaryOp BinaryOp Builtin)
open Lowered (Expr Stmt Function Contract)
open Codegen (Layout Covers CoversStmt CoversBlock exprCode exprsCode stmtCode blockCode binaryCode)
open Wasm (Bytes Instr Operator Outline Gives operatorsOf)

/-! ### Sums -/

section

variable {α : Type}

/-- The sum of the prices of all items. -/
def total (price : α → Nat) : List α → Nat
  | [] => 0
  | a :: rest => price a + total price rest

@[simp] theorem total_nil (price : α → Nat) : total price [] = 0 := rfl

@[simp] theorem total_cons (price : α → Nat) (a : α) (rest : List α) :
    total price (a :: rest) = price a + total price rest := rfl

@[simp] theorem total_append (price : α → Nat) (items rest : List α) :
    total price (items ++ rest) = total price items + total price rest := by
  induction items with
  | nil => simp
  | cons a items ih => simp [ih, Nat.add_assoc]

/-- Sums do not depend on an order. -/
theorem total_perm (price : α → Nat) {items reordered : List α} (perm : items.Perm reordered) :
    total price items = total price reordered := by
  induction perm with
  | nil => rfl
  | cons a _ ih => rw [total_cons, total_cons, ih]
  | swap first second rest =>
      simp only [total_cons]
      omega
  | trans _ _ ih ih' => exact ih.trans ih'

end

/-! ### Expressions -/

/-- The price of a host operation. -/
def builtinPrice (s : Schedule) (kind : Builtin) : Nat :=
  s.hostCost Builtin.importModule kind.importName

/-- The price of an operator without its operands. A truth operator is a conditional with a constant
in one of its branches. -/
def binaryPrice (s : Schedule) : BinaryOp → Nat
  | .and | .or => s.high + s.zero + s.veryLow + s.zero
  | .mul => s.low
  | .div | .rem => s.mid
  | .add | .sub | .eq | .ne | .lt | .le | .gt | .ge => s.veryLow

mutual

def exprPrice (s : Schedule) : Expr → Nat
  | .int .. | .bool .. | .var .. => s.veryLow
  | .slot .. => s.veryLow + builtinPrice s .storageLoad
  | .unary .neg operand _ => exprPrice s operand + s.veryLow + s.veryLow
  | .unary .not operand _ => exprPrice s operand + s.veryLow
  | .binary op lhs rhs _ => exprPrice s lhs + exprPrice s rhs + binaryPrice s op
  | .shl value _ _ => exprPrice s value + s.veryLow + s.veryLow
  | .call _ args _ _ => exprsPrice s args + s.high
  | .builtin kind args _ => exprsPrice s args + builtinPrice s kind

def exprsPrice (s : Schedule) : List Expr → Nat
  | [] => 0
  | e :: rest => exprPrice s e + exprsPrice s rest

end

/-! ### Statements -/

mutual

def stmtPrice (s : Schedule) : Stmt → Nat
  | .letIn _ value _ | .set _ value _ => exprPrice s value + s.veryLow
  | .store _ value _ => exprPrice s value + s.veryLow + builtinPrice s .storageStore
  | .ifThen cond yes no _ =>
      exprPrice s cond + s.high + blockPrice s yes +
        (if no.isEmpty then 0 else s.zero + blockPrice s no) + s.zero
  | .whileDo cond body _ =>
      exprPrice s cond + s.veryLow + s.high + blockPrice s body + s.mid +
        (s.zero + s.zero + s.zero + s.zero)
  | .returns (some value) _ => exprPrice s value + s.base
  | .returns none _ => s.base
  | .require cond _ => exprPrice s cond + s.veryLow + s.high + s.zero + s.zero
  | .eval value _ => exprPrice s value + (if value.type.hasValue then s.base else 0)

def blockPrice (s : Schedule) : List Stmt → Nat
  | [] => 0
  | first :: rest => stmtPrice s first + blockPrice s rest

end

/-! ### Contracts -/

/-- The price of a function: what cannot be reached behind a result and the end of the code are
zero-priced operators of their own. -/
def functionPrice (s : Schedule) (f : Function) : Nat :=
  blockPrice s f.body + (if f.result.hasValue then s.zero else 0) + s.zero

def functionsPrice (s : Schedule) : List Function → Nat
  | [] => 0
  | f :: rest => functionPrice s f + functionsPrice s rest

def contractPrice (s : Schedule) (c : Contract) : Nat :=
  functionsPrice s c.functions

/-! ### Operators of code -/

section

variable (s : Schedule) (hosts : List Nat)

/-- The price of operators if the imported functions have the given prices. -/
def operatorsCost : List Operator → Nat
  | [] => 0
  | operator :: rest => operatorCost s hosts operator + operatorsCost rest

@[simp] theorem operatorsCost_nil : operatorsCost s hosts [] = 0 := rfl

@[simp] theorem operatorsCost_cons (operator : Operator) (rest : List Operator) :
    operatorsCost s hosts (operator :: rest) =
      operatorCost s hosts operator + operatorsCost s hosts rest := rfl

@[simp] theorem operatorsCost_append (operators rest : List Operator) :
    operatorsCost s hosts (operators ++ rest) =
      operatorsCost s hosts operators + operatorsCost s hosts rest := by
  induction operators with
  | nil => simp
  | cons operator operators ih => simp [ih, Nat.add_assoc]

theorem operatorsCost_eq_total (operators : List Operator) :
    operatorsCost s hosts operators = total (operatorCost s hosts) operators := by
  induction operators with
  | nil => rfl
  | cons operator rest ih => rw [operatorsCost_cons, total_cons, ih]

theorem foldl_operatorCost (operators : List Operator) (start : Nat) :
    (operators.map (operatorCost s hosts)).foldl (· + ·) start =
      start + operatorsCost s hosts operators := by
  induction operators generalizing start with
  | nil => rfl
  | cons operator rest ih =>
      rw [List.map_cons, List.foldl_cons, ih, operatorsCost_cons, Nat.add_assoc]

def codeCost (code : List Instr) : Nat :=
  operatorsCost s hosts (operatorsOf code)

@[simp] theorem codeCost_nil : codeCost s hosts [] = 0 := rfl

@[simp] theorem codeCost_append (code rest : List Instr) :
    codeCost s hosts (code ++ rest) = codeCost s hosts code + codeCost s hosts rest := by
  simp [codeCost]

def instrCost (i : Instr) : Nat :=
  operatorsCost s hosts i.operators

@[simp] theorem codeCost_cons (i : Instr) (rest : List Instr) :
    codeCost s hosts (i :: rest) = instrCost s hosts i + codeCost s hosts rest := by
  simp [codeCost, instrCost, operatorsOf]

@[simp] theorem instrCost_unreachable : instrCost s hosts .unreachable = s.zero := rfl

@[simp] theorem instrCost_br (n : Nat) : instrCost s hosts (.br n) = s.mid := rfl

@[simp] theorem instrCost_brIf (n : Nat) : instrCost s hosts (.brIf n) = s.high := rfl

@[simp] theorem instrCost_ret : instrCost s hosts .ret = s.base := rfl

@[simp] theorem instrCost_drop : instrCost s hosts .drop = s.base := rfl

@[simp] theorem instrCost_localGet (n : Nat) : instrCost s hosts (.localGet n) = s.veryLow := rfl

@[simp] theorem instrCost_localSet (n : Nat) : instrCost s hosts (.localSet n) = s.veryLow := rfl

@[simp] theorem instrCost_const (w : Lang.Word) : instrCost s hosts (.const w) = s.veryLow := rfl

@[simp] theorem instrCost_eqz : instrCost s hosts .eqz = s.veryLow := rfl

@[simp] theorem instrCost_call (n : Nat) :
    instrCost s hosts (.call n) = hosts[n]?.getD s.high := by
  simp [instrCost, Instr.operators, operatorCost, accessWidth?]

@[simp] theorem instrCost_num (op : Wasm.NumOp) :
    instrCost s hosts (.num op) = operatorCost s hosts (.plain op.opcode) := by
  simp [instrCost, Instr.operators]

/-- Opening a block, turning to its alternative and closing it are free of choice. -/
theorem operatorCost_mark (code : UInt8) (mark : code ∈ [0x02, 0x03, 0x05, 0x0b]) :
    operatorCost s hosts (.plain code) = s.zero := by
  simp only [List.mem_cons, List.not_mem_nil, or_false] at mark
  rcases mark with rfl | rfl | rfl | rfl <;> rfl

theorem operatorCost_if : operatorCost s hosts (.plain 0x04) = s.high := rfl

@[simp] theorem instrCost_block (body : List Instr) :
    instrCost s hosts (.block body) = s.zero + codeCost s hosts body + s.zero := by
  have opens := operatorCost_mark s hosts 0x02 (by decide)
  have closes := operatorCost_mark s hosts 0x0b (by decide)
  simp [instrCost, Instr.operators, codeCost, opens, closes, Nat.add_assoc]

@[simp] theorem instrCost_loop (body : List Instr) :
    instrCost s hosts (.loop body) = s.zero + codeCost s hosts body + s.zero := by
  have opens := operatorCost_mark s hosts 0x03 (by decide)
  have closes := operatorCost_mark s hosts 0x0b (by decide)
  simp [instrCost, Instr.operators, codeCost, opens, closes, Nat.add_assoc]

/-- An alternative is marked only if there is one. -/
@[simp] theorem instrCost_ifElse (results : Nat) (yes no : List Instr) :
    instrCost s hosts (.ifElse results yes no) =
      s.high + codeCost s hosts yes + (if no.isEmpty then 0 else s.zero + codeCost s hosts no) +
        s.zero := by
  have turns := operatorCost_mark s hosts 0x05 (by decide)
  have closes := operatorCost_mark s hosts 0x0b (by decide)
  simp only [instrCost, Instr.operators, codeCost, operatorsCost_cons, operatorsCost_append,
    operatorsCost_nil, operatorCost_if, closes]
  by_cases none : no.isEmpty
  · simp [none, Nat.add_assoc]
  · simp [none, turns, Nat.add_assoc]

end

/-! ### Code of expressions -/

/-- The prices of the imports of a layout. -/
def importPrices (s : Schedule) (layout : Layout) : List Nat :=
  layout.imports.map (builtinPrice s)

section

variable {s : Schedule} {layout : Layout}

theorem importPrices_importIndex {kind : Builtin} (imported : kind ∈ layout.imports) :
    (importPrices s layout)[layout.importIndex kind]?.getD s.high = builtinPrice s kind := by
  have found : layout.imports[layout.importIndex kind]? = some kind :=
    Codegen.getElem?_idxOf? imported
  simp [importPrices, found]

theorem importPrices_functionIndex (index : Nat) :
    (importPrices s layout)[layout.functionIndex index]?.getD s.high = s.high := by
  simp [importPrices, Layout.functionIndex]

theorem exprCode_ne_nil (layout : Layout) (e : Expr) : exprCode layout e ≠ [] := by
  cases e with
  | unary op operand span => cases op <;> simp [exprCode]
  | binary op lhs rhs span =>
      rw [exprCode]
      cases op <;> simp [binaryCode, Codegen.numOp?]
  | _ => simp [exprCode]

theorem codeCost_binaryCode (hosts : List Nat) (op : BinaryOp) (lhs : List Instr) {rhs : List Instr}
    (some : rhs ≠ []) :
    codeCost s hosts (binaryCode op lhs rhs) =
      codeCost s hosts lhs + codeCost s hosts rhs + binaryPrice s op := by
  have branch : rhs.isEmpty = false := by simpa using some
  cases op with
  | and =>
      simp only [binaryCode, codeCost_append, codeCost_cons, codeCost_nil, instrCost_ifElse,
        instrCost_const, binaryPrice, List.isEmpty_cons, Bool.false_eq_true, if_false]
      omega
  | or =>
      simp only [binaryCode, codeCost_append, codeCost_cons, codeCost_nil, instrCost_ifElse,
        instrCost_const, binaryPrice, branch, Bool.false_eq_true, if_false]
      omega
  | _ =>
      simp only [binaryCode, Codegen.numOp?, Option.toList_some, List.map_cons, List.map_nil,
        codeCost_append, codeCost_cons, codeCost_nil, instrCost_num, Nat.add_zero]
      rfl

theorem codeCost_exprsCode {args : List Expr}
    (each : ∀ a ∈ args, codeCost s (importPrices s layout) (exprCode layout a) = exprPrice s a) :
    codeCost s (importPrices s layout) (exprsCode layout args) = exprsPrice s args := by
  induction args with
  | nil => rfl
  | cons a rest ih =>
      obtain ⟨first, others⟩ := List.forall_mem_cons.1 each
      rw [exprsCode, exprsPrice, codeCost_append, first, ih others]

/-- The price of the code of an expression whose operations are imported. -/
theorem codeCost_exprCode (s : Schedule) {e : Expr} (covers : Covers layout e) :
    codeCost s (importPrices s layout) (exprCode layout e) = exprPrice s e := by
  induction e with
  | int value span => simp [exprCode, exprPrice]
  | bool value span => simp [exprCode, exprPrice]
  | var index type span => simp [exprCode, exprPrice]
  | slot index type span =>
      have imported := covers.self (rfl : Codegen.nodeUse? (.slot index type span) = some .storageLoad)
      simp [exprCode, exprPrice, importPrices_importIndex imported]
  | unary op operand span ih =>
      have price := ih (covers.of_nodes (List.subset_append_left _ _))
      cases op with
      | neg =>
          simp only [exprCode, exprPrice, codeCost_cons, codeCost_append, codeCost_nil, price,
            instrCost_const, instrCost_num]
          show s.veryLow + (exprPrice s operand + (s.veryLow + 0)) = _
          omega
      | not => simp [exprCode, exprPrice, price]
  | binary op lhs rhs span ihl ihr =>
      have left := ihl (covers.of_nodes fun node mem =>
        List.mem_append_left _ (List.mem_append_left _ mem))
      have right := ihr (covers.of_nodes fun node mem =>
        List.mem_append_left _ (List.mem_append_right _ mem))
      rw [exprCode, codeCost_binaryCode _ _ _ (exprCode_ne_nil layout rhs), left, right, exprPrice]
  | shl value amount span ih =>
      have price := ih (covers.of_nodes (List.subset_append_left _ _))
      simp only [exprCode, exprPrice, codeCost_cons, codeCost_append, codeCost_nil, price,
        instrCost_const, instrCost_num]
      show exprPrice s value + (s.veryLow + (s.veryLow + 0)) = _
      omega
  | call function args result span ih =>
      have args := codeCost_exprsCode fun a mem => ih a mem (covers.of_nodes fun node inArg =>
        List.mem_append_left _ (Codegen.nodes_subset_nodesOfList mem inArg))
      simp [exprCode, exprPrice, args, importPrices_functionIndex]
  | builtin kind args span ih =>
      have imported := covers.self (rfl : Codegen.nodeUse? (.builtin kind args span) = some kind)
      have args := codeCost_exprsCode fun a mem => ih a mem (covers.of_nodes fun node inArg =>
        List.mem_append_left _ (Codegen.nodes_subset_nodesOfList mem inArg))
      simp [exprCode, exprPrice, args, importPrices_importIndex imported]

/-! ### Code of statements -/

theorem stmtCode_ne_nil (layout : Layout) (st : Stmt) : stmtCode layout st ≠ [] := by
  cases st with
  | returns value span => cases value <;> simp [stmtCode]
  | eval value span => simp [stmtCode, exprCode_ne_nil]
  | _ => simp [stmtCode]

theorem blockCode_isEmpty (layout : Layout) (body : List Stmt) :
    (blockCode layout body).isEmpty = body.isEmpty := by
  cases body with
  | nil => rfl
  | cons st rest => simp [blockCode, stmtCode_ne_nil]

theorem codeCost_blockCode_of_forall {body : List Stmt} (covers : CoversBlock layout body)
    (each : ∀ st ∈ body, CoversStmt layout st →
      codeCost s (importPrices s layout) (stmtCode layout st) = stmtPrice s st) :
    codeCost s (importPrices s layout) (blockCode layout body) = blockPrice s body := by
  induction body with
  | nil => rfl
  | cons st rest ih =>
      obtain ⟨first, others⟩ := List.forall_mem_cons.1 each
      obtain ⟨coversFirst, coversRest⟩ := covers.cons
      rw [blockCode, blockPrice, codeCost_append, first coversFirst, ih coversRest others]

/-- The price of the code of a statement whose operations are imported. -/
theorem codeCost_stmtCode {st : Stmt} (covers : CoversStmt layout st) :
    codeCost s (importPrices s layout) (stmtCode layout st) = stmtPrice s st := by
  induction st with
  | letIn index value span =>
      have price := codeCost_exprCode s (show Covers layout value from covers)
      simp [stmtCode, stmtPrice, price]
  | set index value span =>
      have price := codeCost_exprCode s (show Covers layout value from covers)
      simp [stmtCode, stmtPrice, price]
  | store slot value span =>
      have imported : Builtin.storageStore ∈ layout.imports := covers _ List.mem_cons_self
      have price := codeCost_exprCode s (show Covers layout value from fun kind needed =>
        covers kind (List.mem_cons_of_mem _ needed))
      simp only [stmtCode, stmtPrice, codeCost_cons, codeCost_append, codeCost_nil, price,
        instrCost_const, instrCost_call, importPrices_importIndex imported]
      omega
  | ifThen cond yes no span ihy ihn =>
      obtain ⟨coversCond, coversYes, coversNo⟩ := covers.ifThen
      have price := codeCost_exprCode s coversCond
      have onYes := codeCost_blockCode_of_forall coversYes ihy
      have onNo := codeCost_blockCode_of_forall coversNo ihn
      simp only [stmtCode, stmtPrice, codeCost_cons, codeCost_append, codeCost_nil, price, onYes,
        onNo, instrCost_ifElse, blockCode_isEmpty]
      omega
  | whileDo cond body span ih =>
      obtain ⟨coversCond, coversBody⟩ := covers.whileDo
      have price := codeCost_exprCode s coversCond
      have inside := codeCost_blockCode_of_forall coversBody ih
      simp only [stmtCode, stmtPrice, codeCost_cons, codeCost_append, codeCost_nil, price, inside,
        instrCost_block, instrCost_loop, instrCost_eqz, instrCost_brIf, instrCost_br]
      omega
  | returns value span =>
      cases value with
      | none => simp [stmtCode, stmtPrice]
      | some value =>
          have price := codeCost_exprCode s (show Covers layout value from covers)
          simp [stmtCode, stmtPrice, price]
  | require cond span =>
      have price := codeCost_exprCode s (show Covers layout cond from covers)
      simp only [stmtCode, stmtPrice, codeCost_cons, codeCost_append, codeCost_nil, price,
        instrCost_eqz, instrCost_ifElse, instrCost_unreachable, List.isEmpty_nil, if_true]
      omega
  | eval value span =>
      have price := codeCost_exprCode s (show Covers layout value from covers)
      by_cases has : value.type.hasValue <;> simp [stmtCode, stmtPrice, price, has]

end

/-! ### Modules -/

theorem outlineCost_outline (s : Schedule) (m : Wasm.Module) :
    outlineCost s m.outline =
      operatorsCost s (m.imports.map fun i => s.hostCost i.moduleName i.name)
        (m.funcs.map Wasm.Func.operators).flatten := by
  have hosts : importCosts s m.outline = m.imports.map fun i => s.hostCost i.moduleName i.name := by
    simp [importCosts, Wasm.Module.outline]
  rw [outlineCost, hosts]
  exact (foldl_operatorCost s _ _ 0).trans (Nat.zero_add _)

/-- The estimate of a module that fits is its price, up to the cap. -/
theorem estimate?_encode (s : Schedule) (m : Wasm.Module) :
    Gives (estimate? s m.encode) m.Fits (min cap (outlineCost s m.outline)) :=
  (Wasm.Module.ofBytes?_encode m).map _

theorem operatorsCost_functionEntry (s : Schedule) {layout : Layout}
    (table : List Wasm.FuncType) {f : Function} (covers : CoversBlock layout f.body) :
    operatorsCost s (importPrices s layout) (Codegen.functionEntry layout table f).operators =
      functionPrice s f := by
  have ends := operatorCost_mark s (importPrices s layout) 0x0b (by decide)
  have body := codeCost_blockCode_of_forall (s := s) covers fun _ _ => codeCost_stmtCode
  have code : codeCost s (importPrices s layout) (Codegen.functionCode layout f) + s.zero =
      functionPrice s f := by
    by_cases has : f.result.hasValue <;> simp [Codegen.functionCode, functionPrice, body, has]
  rw [← code]
  simp [Wasm.Func.operators, codeCost, Codegen.functionEntry, ends]

theorem operatorsCost_functionEntries (s : Schedule) {layout : Layout}
    (table : List Wasm.FuncType) {functions : List Function}
    (covers : ∀ f ∈ functions, CoversBlock layout f.body) :
    operatorsCost s (importPrices s layout)
        ((functions.map (Codegen.functionEntry layout table)).map Wasm.Func.operators).flatten =
      functionsPrice s functions := by
  induction functions with
  | nil => rfl
  | cons f rest ih =>
      obtain ⟨first, others⟩ := List.forall_mem_cons.1 covers
      rw [List.map_cons, List.map_cons, List.flatten_cons, operatorsCost_append, ih others,
        operatorsCost_functionEntry s table first, functionsPrice]

/-- The price of a generated module is that of its contract. -/
theorem outlineCost_generate (s : Schedule) (debugNames : Bool) (c : Contract) :
    outlineCost s (Codegen.generate debugNames c).outline = contractPrice s c := by
  have hosts : (Codegen.generate debugNames c).imports.map
      (fun i => s.hostCost i.moduleName i.name) = importPrices s ⟨Codegen.imports c⟩ := by
    simp [Codegen.generate, importPrices, builtinPrice]
  have covers (f : Function) (mem : f ∈ c.functions) : CoversBlock ⟨Codegen.imports c⟩ f.body :=
    fun _ needed => Codegen.mem_imports mem needed
  rw [outlineCost_outline, hosts]
  exact operatorsCost_functionEntries s _ covers

/-- The estimate of a generated module that fits is the price of its contract, up to the cap. -/
theorem estimate?_generate (s : Schedule) (debugNames : Bool) (c : Contract) :
    Gives (estimate? s (Codegen.generate debugNames c).encode) (Codegen.generate debugNames c).Fits
      (min cap (contractPrice s c)) := by
  rw [← outlineCost_generate s debugNames c]
  exact estimate?_encode s _

end Workbench.Gas
