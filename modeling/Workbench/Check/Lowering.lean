import Workbench.Check.Problem
import Workbench.Lowered.Basic
import Workbench.Syntax.Tree

/-!
# Checking and lowering a contract

One pass over the syntax tree resolves names, checks types and builds the lowered form. Problems do
not stop it: an expression with a problem has no lowered form, and a statement that needs one is
left out, so the result is a contract of sound shape that later analyses can still look at.

Names are looked up from the innermost scope outward and then among the storage variables. A
variable is declared even when its initial value is faulty, so that its later uses raise no further
problems.
-/

namespace Workbench.Check

open Source (Span Diagnostic)
open Lang (Ty ValueType UnaryOp BinaryOp Builtin Word)
open Syntax (Name)
open Lowered (Expr Stmt Variable Function Contract)
open Checked (report reportIf)

/-! ### Environments and scopes -/

/-- What a call needs to know of a function. -/
structure Signature where
  name : String
  params : List Ty
  result : Ty
  isView : Bool
  deriving DecidableEq, Repr, Inhabited

/-- What is fixed while the body of a function is checked. -/
structure Env where
  storage : List Variable
  signatures : List Signature
  result : Ty
  isView : Bool

namespace Env

/-- The slot and type of a storage variable. -/
def slot? (env : Env) (name : String) : Option (Nat × Ty) := do
  let index ← env.storage.findIdx? fun v => v.name == name
  let v ← env.storage[index]?
  return (index, v.type)

def function? (env : Env) (name : String) : Option (Nat × Signature) := do
  let index ← env.signatures.findIdx? fun s => s.name == name
  let s ← env.signatures[index]?
  return (index, s)

end Env

/-- A name that a scope binds to a local. -/
structure Binding where
  name : String
  index : Nat
  type : Ty
  deriving DecidableEq, Repr, Inhabited

/-- The locals declared so far, and the open scopes, innermost and newest first. -/
structure Scope where
  locals : Array Variable
  frames : List (List Binding)

namespace Scope

def lookup? (scope : Scope) (name : String) : Option Binding :=
  scope.frames.findSome? fun frame => frame.find? fun b => b.name == name

/-- The scope with a new local in its innermost frame. -/
def declare (scope : Scope) (name : String) (type : Ty) : Scope :=
  let binding : Binding := ⟨name, scope.locals.size, type⟩
  { locals := scope.locals.push ⟨name, type⟩
    frames :=
      match scope.frames with
      | [] => []
      | frame :: outer => (binding :: frame) :: outer }

/-- The scope with a new frame. -/
def enter (scope : Scope) : Scope :=
  { scope with frames := [] :: scope.frames }

end Scope

/-! ### Expressions -/

/-- Whether an expression has the expected type; if not, that is a problem. -/
def expectType (e : Expr) (expected : Ty) : Checked Bool := do
  reportIf (e.type != expected) (.mismatch expected e.type) e.span
  return e.type == expected

/-- The magnitude of the least signed word, the first number that no word holds. -/
def leastMagnitude : Nat := 1 <<< 31

/-- The literal as a word, which holds it only below the greatest signed word. -/
def checkLiteral (value : Nat) (span : Span) : Checked (Option Expr) := do
  reportIf (decide (leastMagnitude ≤ value)) (.literalRange value) span
  return if value < leastMagnitude then some (.int (BitVec.ofNat 32 value) span) else none

/-- The operand type of an operator; the equalities have none, they only ask for equal ones. -/
def operandType? : BinaryOp → Option Ty
  | .add | .sub | .mul | .div | .rem | .lt | .le | .gt | .ge => some .i32
  | .and | .or => some .bool
  | .eq | .ne => none

/-- Whether an operator applies to two operands; if not, that is a problem. -/
def checkOperands (op : BinaryOp) (left right : Ty) (span : Span) : Checked Bool := do
  match operandType? op with
  | some expected =>
      let ok := left == expected && right == expected
      reportIf (!ok) (.operands op expected left right) span
      return ok
  | none =>
      let ok := left == right && left != .unit
      reportIf (!ok) (.comparison op left right) span
      return ok

/-- The variable that a name stands for. -/
def checkName (env : Env) (scope : Scope) (name : String) (span : Span) :
    Checked (Option Expr) := do
  match scope.lookup? name with
  | some b => return some (.var b.index b.type span)
  | none =>
      match env.slot? name with
      | some (index, type) => return some (.slot index type span)
      | none =>
          report (.unknownVariable name) span
          return none

/-- Matches arguments with the types they should have. The result is `none` if any argument is
faulty or has the wrong type; all of them are looked at. -/
def checkArguments : List (Option Expr) → List Ty → Checked (Option (List Expr))
  | some arg :: args, expected :: types => do
      let ok ← expectType arg expected
      let rest ← checkArguments args types
      return if ok then rest.map (arg :: ·) else none
  | none :: args, _ :: types => do
      let _ ← checkArguments args types
      return none
  | _, _ => return some []

/-- The call that a name with checked arguments stands for. Functions of the contract come before
the host operations. -/
def checkCall (env : Env) (callee : Name) (args : List (Option Expr)) (span : Span) :
    Checked (Option Expr) := do
  let finish (params : List Ty) (build : List Expr → Expr) : Checked (Option Expr) := do
    if params.length = args.length then
      return (← checkArguments args params).map build
    else
      report (.argumentCount callee.text params.length args.length) span
      return none
  match env.function? callee.text with
  | some (index, sig) =>
      reportIf (env.isView && !sig.isView) (.viewCalls callee.text) span
      finish sig.params fun lowered => .call index lowered sig.result span
  | none =>
      match Builtin.ofCallName? callee.text with
      | some builtin =>
          reportIf (env.isView && builtin.changesState) (.viewCallsBuiltin callee.text) span
          finish builtin.params fun lowered => .builtin builtin lowered span
      | none =>
          report (.unknownFunction callee.text) callee.span
          return none

/-- The one literal that fits only with its sign. -/
def isNegatedLeast (op : UnaryOp) (operand : Syntax.Expr) : Bool :=
  match op, operand with
  | .neg, .int value _ => value == leastMagnitude
  | _, _ => false

mutual

/-- Checks an expression and lowers it if nothing is wrong with it. -/
def checkExpr (env : Env) (scope : Scope) : Syntax.Expr → Checked (Option Expr)
  | .int value span => checkLiteral value span
  | .bool value span => return some (.bool value span)
  | .name text span => checkName env scope text span
  | .unary op operand span => do
      if isNegatedLeast op operand then return some (.int Word.least span)
      else
        match ← checkExpr env scope operand with
        | none => return none
        | some e =>
            let ok ← expectType e (Lowered.unaryType op)
            return if ok then some (.unary op e span) else none
  | .binary op lhs rhs span => do
      let left ← checkExpr env scope lhs
      let right ← checkExpr env scope rhs
      match left, right with
      | some l, some r =>
          let ok ← checkOperands op l.type r.type span
          return if ok then some (.binary op l r span) else none
      | _, _ => return none
  | .call callee args span => do
      let lowered ← checkExprs env scope args
      checkCall env callee lowered span

def checkExprs (env : Env) (scope : Scope) : List Syntax.Expr → Checked (List (Option Expr))
  | [] => return []
  | e :: rest => do
      let first ← checkExpr env scope e
      return first :: (← checkExprs env scope rest)

end

def checkCondition (env : Env) (scope : Scope) (cond : Syntax.Expr) : Checked (Option Expr) := do
  match ← checkExpr env scope cond with
  | none => return none
  | some e =>
      let ok ← expectType e .bool
      return if ok then some e else none

/-! ### Statements -/

/-- A declaration must not take the name of a storage variable. -/
def checkShadowing (storage : List Variable) (name : Name) : Checked Unit :=
  reportIf (storage.any fun v => v.name == name.text) (.shadowsStorage name.text) name.span

/-- A declaration of a variable. Without a declared type the type is that of the value, or `i32` if
the value is faulty. -/
def checkLet (env : Env) (scope : Scope) (name : Name) (ascribed : Option ValueType)
    (value : Syntax.Expr) (span : Span) : Checked (Option Stmt × Scope) := do
  checkShadowing env.storage name
  let value ← checkExpr env scope value
  let declared := ascribed.map (·.ty)
  let type := (declared.or (value.map (·.type))).getD .i32
  let kept ←
    match value, declared with
    | some e, some expected => do
        let ok ← expectType e expected
        pure (if ok then some e else none)
    | value, _ => pure value
  reportIf (type == .unit) .bindsNothing name.span
  return (kept.map fun e => .letIn scope.locals.size e span, scope.declare name.text type)

/-- An assignment to a local or, if there is none of that name, to a storage variable. A value of
the wrong type is a problem, but the assignment stays. -/
def checkAssign (env : Env) (scope : Scope) (target : Name) (value : Syntax.Expr) (span : Span) :
    Checked (Option Stmt) := do
  let value ← checkExpr env scope value
  match scope.lookup? target.text with
  | some b =>
      match value with
      | none => return none
      | some e =>
          let _ ← expectType e b.type
          return some (.set b.index e span)
  | none =>
      match env.slot? target.text with
      | some (index, type) =>
          reportIf env.isView (.viewWrites target.text) span
          match value with
          | none => return none
          | some e =>
              let _ ← expectType e type
              return some (.store index e span)
      | none =>
          report (.unknownVariable target.text) target.span
          return none

/-- A return, whose value has to fit the result type. A wrong value is a problem, but the return
stays. -/
def checkReturn (env : Env) (scope : Scope) (value : Option Syntax.Expr) (span : Span) :
    Checked (Option Stmt) := do
  match value with
  | some e =>
      match ← checkExpr env scope e with
      | none => return none
      | some e =>
          if env.result = .unit then report .unexpectedValue span
          else
            let _ ← expectType e env.result
          return some (.returns (some e) span)
  | none =>
      reportIf (env.result != .unit) (.missingValue env.result) span
      return some (.returns none span)

mutual

/-- Checks a statement. It is lowered unless an expression that it needs is faulty; the scope may
hold a new local in any case. -/
def checkStmt (env : Env) (scope : Scope) : Syntax.Stmt → Checked (Option Stmt × Scope)
  | .letIn name type value span => checkLet env scope name type value span
  | .assign target value span => return (← checkAssign env scope target value span, scope)
  | .ifThen cond yes no span => do
      let cond ← checkCondition env scope cond
      let (yes, scope) ← checkBlock env scope yes
      let (no, scope) ←
        match no with
        | some no => checkBlock env scope no
        | none => pure ([], scope)
      return (cond.map fun c => .ifThen c yes no span, scope)
  | .whileDo cond body span => do
      let cond ← checkCondition env scope cond
      let (body, scope) ← checkBlock env scope body
      return (cond.map fun c => .whileDo c body span, scope)
  | .returns value span => return (← checkReturn env scope value span, scope)
  | .require cond span => do
      let cond ← checkCondition env scope cond
      return (cond.map fun c => .require c span, scope)
  | .eval value span => do
      let value ← checkExpr env scope value
      return (value.map fun e => .eval e span, scope)

/-- Checks a block in a frame of its own. Its locals stay in the table of the function. -/
def checkBlock (env : Env) (scope : Scope) : Syntax.Block → Checked (List Stmt × Scope)
  | .mk stmts _ => do
      let (lowered, inner) ← checkStmts env scope.enter stmts
      return (lowered, { inner with frames := scope.frames })

def checkStmts (env : Env) (scope : Scope) : List Syntax.Stmt → Checked (List Stmt × Scope)
  | [] => return ([], scope)
  | s :: rest => do
      let (first, scope) ← checkStmt env scope s
      let (rest, scope) ← checkStmts env scope rest
      return (first.toList ++ rest, scope)

end

/-! ### Declarations -/

def checkParams (storage : List Variable) : List Syntax.Param → Scope → Checked Scope
  | [], scope => return scope
  | p :: rest, scope => do
      reportIf (scope.lookup? p.name.text).isSome (.parameterTwice p.name.text) p.name.span
      checkShadowing storage p.name
      checkParams storage rest (scope.declare p.name.text p.type.ty)

/-- The problem of a body that may end without the value it owes. Since faulty statements are left
out of a body, the question is only asked of a body without problems. -/
def checkFallThrough (decl : Syntax.FunctionDecl) (body : Checked (List Stmt × Scope)) :
    Checked Unit :=
  let result := Ty.ofResult decl.result
  reportIf (result != .unit && body.problems.isEmpty && !Stmt.anyDiverges body.value.1)
    (.mayFallThrough decl.name.text result) decl.name.span

def checkFunction (storage : List Variable) (signatures : List Signature)
    (decl : Syntax.FunctionDecl) : Checked Function := do
  let env : Env := ⟨storage, signatures, Ty.ofResult decl.result, decl.isView⟩
  let scope ← checkParams storage decl.params ⟨#[], [[]]⟩
  let body := checkBlock env scope decl.body
  let (stmts, inner) ← body
  checkFallThrough decl body
  return {
    name := decl.name.text
    paramCount := scope.locals.size
    result := env.result
    locals := inner.locals.toList
    body := stmts
    isPublic := decl.isPublic
    isView := decl.isView
    span := decl.span }

def checkFunctions (storage : List Variable) (signatures : List Signature) :
    List Syntax.FunctionDecl → Checked (List Function)
  | [] => return []
  | f :: rest => do
      let first ← checkFunction storage signatures f
      return first :: (← checkFunctions storage signatures rest)

/-- The storage variables of a contract; `done` holds those before. A repeated name is left out. -/
def checkStorage (done : List Variable) : List Syntax.StorageDecl → Checked (List Variable)
  | [] => return done
  | d :: rest => do
      let twice := done.any fun v => v.name == d.name.text
      reportIf twice (.storageTwice d.name.text) d.name.span
      checkStorage (if twice then done else done ++ [⟨d.name.text, d.type.ty⟩]) rest

def Signature.ofDecl (f : Syntax.FunctionDecl) : Signature :=
  ⟨f.name.text, f.params.map (·.type.ty), Ty.ofResult f.result, f.isView⟩

/-- The functions that count: a repeated name or the name of a host operation is left out. `done`
holds the declarations before, last first. -/
def checkFunctionNames (done : List Syntax.FunctionDecl) :
    List Syntax.FunctionDecl → Checked (List Syntax.FunctionDecl)
  | [] => return done.reverse
  | f :: rest => do
      if done.any fun g => g.name.text == f.name.text then
        report (.functionTwice f.name.text) f.name.span
        checkFunctionNames done rest
      else if (Builtin.ofCallName? f.name.text).isSome then
        report (.functionIsBuiltin f.name.text) f.name.span
        checkFunctionNames done rest
      else checkFunctionNames (f :: done) rest

/-- Checks a contract. Signatures come first, so that a function can call one declared later. -/
def checkContract (contract : Syntax.Contract) : Checked Contract := do
  let storage ← checkStorage [] contract.storage
  let declared ← checkFunctionNames [] contract.functions
  let functions ← checkFunctions storage (declared.map Signature.ofDecl) declared
  return ⟨contract.name.text, storage, functions, contract.span⟩

/-! ### The analysis -/

/-- The lowered form of a contract, in part if the contract is faulty, and the messages about it. -/
structure Analysis where
  contract : Contract
  diagnostics : List Diagnostic

/-- Checks and lowers a contract. -/
def analyze (contract : Syntax.Contract) : Analysis :=
  let checked := checkContract contract
  ⟨checked.value, checked.problems.map Located.diagnostic⟩

end Workbench.Check
