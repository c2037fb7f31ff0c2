import Workbench.Lowered.Basic
import Workbench.Wasm.Module

/-!
# Modules of contracts

Every function of a contract becomes a function of its module. Host operations that the contract
uses are imported, in table order, and come first in the numbering; the functions follow in the
order of their declaration. Truth values are the words zero and one. Public functions are exported
by name.

A loop is a block around a loop: leaving it is a branch out of the block, the next round one to the
loop. Since a function with a result returns on every path, the end of its code is out of reach and
says so.
-/

namespace Workbench.Codegen

open Lang (Ty UnaryOp BinaryOp Builtin Word)
open Lowered (Expr Stmt Function Contract Variable)
open Wasm (Instr NumOp FuncType Import Func Export Names NameMap Module)

/-! ### Imports -/

/-- The host operation that a node of an expression needs. -/
def nodeUse? : Expr → Option Builtin
  | .slot .. => some .storageLoad
  | .builtin kind _ _ => some kind
  | _ => none

/-- The host operations that an expression needs. -/
def exprUses (e : Expr) : List Builtin :=
  e.nodes.filterMap nodeUse?

mutual

def stmtUses : Stmt → List Builtin
  | .letIn _ value _ | .set _ value _ | .eval value _ | .require value _ => exprUses value
  | .store _ value _ => .storageStore :: exprUses value
  | .returns (some value) _ => exprUses value
  | .returns none _ => []
  | .ifThen cond yes no _ => exprUses cond ++ blockUses yes ++ blockUses no
  | .whileDo cond body _ => exprUses cond ++ blockUses body

def blockUses : List Stmt → List Builtin
  | [] => []
  | s :: rest => stmtUses s ++ blockUses rest

end

def uses (contract : Contract) : List Builtin :=
  contract.functions.flatMap fun f => blockUses f.body

/-- The imports of a contract: the operations that it needs, in table order. -/
def imports (contract : Contract) : List Builtin :=
  let used := uses contract
  Builtin.all.filter fun b => used.contains b

/-! ### Code -/

/-- The numbering of functions. -/
structure Layout where
  imports : List Builtin

namespace Layout

def importIndex (layout : Layout) (kind : Builtin) : Nat :=
  (layout.imports.idxOf? kind).getD 0

def functionIndex (layout : Layout) (index : Nat) : Nat :=
  layout.imports.length + index

end Layout

/-- The instruction of an operator whose operands are always both evaluated. -/
def numOp? : BinaryOp → Option NumOp
  | .add => some .add
  | .sub => some .sub
  | .mul => some .mul
  | .div => some .divS
  | .rem => some .remS
  | .eq => some .eq
  | .ne => some .ne
  | .lt => some .ltS
  | .le => some .leS
  | .gt => some .gtS
  | .ge => some .geS
  | .and | .or => none

/-- The code of an operator on operands with the given code. The second operand of a truth operator
runs only if the first does not settle the value. -/
def binaryCode (op : BinaryOp) (lhs rhs : List Instr) : List Instr :=
  match op with
  | .and => lhs ++ [.ifElse 1 rhs [.const 0]]
  | .or => lhs ++ [.ifElse 1 [.const 1] rhs]
  | op => lhs ++ rhs ++ (numOp? op).toList.map .num

mutual

/-- Code that leaves the value of an expression. -/
def exprCode (layout : Layout) : Expr → List Instr
  | .int value _ => [.const value]
  | .bool value _ => [.const (Word.ofBool value)]
  | .var index _ _ => [.localGet index]
  | .slot index _ _ => [.const (BitVec.ofNat 32 index), .call (layout.importIndex .storageLoad)]
  | .unary .neg operand _ => .const 0 :: (exprCode layout operand ++ [.num .sub])
  | .unary .not operand _ => exprCode layout operand ++ [.eqz]
  | .binary op lhs rhs _ => binaryCode op (exprCode layout lhs) (exprCode layout rhs)
  | .shl value amount _ =>
      exprCode layout value ++ [.const (BitVec.ofNat 32 amount), .num .shl]
  | .call function args _ _ => exprsCode layout args ++ [.call (layout.functionIndex function)]
  | .builtin kind args _ => exprsCode layout args ++ [.call (layout.importIndex kind)]

/-- Code that leaves the values of expressions, the last one uppermost. -/
def exprsCode (layout : Layout) : List Expr → List Instr
  | [] => []
  | e :: rest => exprCode layout e ++ exprsCode layout rest

end

mutual

def stmtCode (layout : Layout) : Stmt → List Instr
  | .letIn index value _ | .set index value _ => exprCode layout value ++ [.localSet index]
  | .store slot value _ =>
      .const (BitVec.ofNat 32 slot) ::
        (exprCode layout value ++ [.call (layout.importIndex .storageStore)])
  | .ifThen cond yes no _ =>
      exprCode layout cond ++ [.ifElse 0 (blockCode layout yes) (blockCode layout no)]
  | .whileDo cond body _ =>
      [.block [.loop (exprCode layout cond ++ [.eqz, .brIf 1] ++ blockCode layout body ++ [.br 0])]]
  | .returns (some value) _ => exprCode layout value ++ [.ret]
  | .returns none _ => [.ret]
  | .require cond _ => exprCode layout cond ++ [.eqz, .ifElse 0 [.unreachable] []]
  | .eval value _ => exprCode layout value ++ (if value.type.hasValue then [.drop] else [])

def blockCode (layout : Layout) : List Stmt → List Instr
  | [] => []
  | s :: rest => stmtCode layout s ++ blockCode layout rest

end

def functionCode (layout : Layout) (f : Function) : List Instr :=
  blockCode layout f.body ++ (if f.result.hasValue then [.unreachable] else [])

/-! ### Types -/

/-- How many words carry a value of a type. -/
def words (type : Ty) : Nat :=
  if type.hasValue then 1 else 0

def builtinType (kind : Builtin) : FuncType :=
  ⟨(kind.params.map words).foldl (· + ·) 0, words kind.result⟩

def functionType (f : Function) : FuncType :=
  ⟨(f.params.map fun v => words v.type).foldl (· + ·) 0, words f.result⟩

/-- The table with a type added unless it is there. -/
def intern (table : List FuncType) (type : FuncType) : List FuncType :=
  if table.contains type then table else table ++ [type]

/-- The table of types, in the order of their first use. -/
def typeTable (used : List FuncType) : List FuncType :=
  used.foldl intern []

def typeIndex (table : List FuncType) (type : FuncType) : Nat :=
  (table.idxOf? type).getD 0

/-! ### Names -/

/-- The names of positions, from a first one on. -/
def numbered (first : Nat) (names : List String) : NameMap :=
  (names.zipIdx first).map fun (name, index) => (index, name)

/-- The names of a module for debuggers. -/
def names (layout : Layout) (contract : Contract) : Names :=
  let first := layout.imports.length
  { module := contract.name
    functions :=
      numbered 0 (layout.imports.map (·.importName) ++ contract.functions.map (·.name))
    locals :=
      (contract.functions.zipIdx first).map fun (f, index) =>
        (index, numbered 0 (f.locals.map (·.name))) }

/-! ### Modules -/

/-- The function of a module for a function of a contract. -/
def functionEntry (layout : Layout) (table : List FuncType) (f : Function) : Func :=
  ⟨typeIndex table (functionType f), f.locals.length - f.paramCount, functionCode layout f⟩

/-- The exports of a contract: its public functions. -/
def exports (layout : Layout) (contract : Contract) : List Export :=
  contract.functions.zipIdx.filterMap fun (f, index) =>
    if f.isPublic then some ⟨f.name, layout.functionIndex index⟩ else none

/-- The module of a contract, with names for debuggers on demand. -/
def generate (debugNames : Bool) (contract : Contract) : Module :=
  let layout : Layout := ⟨imports contract⟩
  let table :=
    typeTable (layout.imports.map builtinType ++ contract.functions.map functionType)
  { types := table
    imports := layout.imports.map fun kind =>
      ⟨Builtin.importModule, kind.importName, typeIndex table (builtinType kind)⟩
    funcs := contract.functions.map (functionEntry layout table)
    exports := exports layout contract
    names := if debugNames then some (names layout contract) else none
    customs := [] }

end Workbench.Codegen
