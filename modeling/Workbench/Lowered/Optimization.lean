import Workbench.Lowered.Basic

/-!
# Optimization of the lowered form

One pass changes a contract from the leaves up. The level says what it may do: from level 1 on it
evaluates operators on constants, from level 2 on it uses identities of the operators and decides
constant conditions, and on level 3 it cuts statements that control never reaches. Independently of
the level, a multiplication by a power of two can become a shift.

A change never drops an operand that could trap or touch the host, never evaluates an operation
that traps, and keeps the order of what it does not drop. Every change is counted.
-/

namespace Workbench.Lowered

open Source (Span)
open Lang (UnaryOp BinaryOp Word)

namespace Optimization

/-! ### Options and counts -/

/-- What a pass may do. -/
structure Options where
  level : Nat
  strengthReduction : Bool
  deriving DecidableEq, Repr, Inhabited

/-- How many changes of each kind a pass made. -/
structure Report where
  folded : Nat
  simplified : Nat
  removed : Nat
  strengthReduced : Nat
  deriving DecidableEq, Repr, Inhabited

namespace Report

def none : Report := ⟨0, 0, 0, 0⟩

/-- The changes of two parts of a contract together. -/
def add (a b : Report) : Report :=
  ⟨a.folded + b.folded, a.simplified + b.simplified, a.removed + b.removed,
    a.strengthReduced + b.strengthReduced⟩

def total (r : Report) : Nat :=
  r.folded + r.simplified + r.removed + r.strengthReduced

@[simp] theorem total_none : none.total = 0 := rfl

@[simp] theorem total_add (a b : Report) : (a.add b).total = a.total + b.total := by
  simp [total, add]
  omega

end Report

/-- A changed part with the count of the changes that led to it. -/
structure Counted (α : Type) where
  value : α
  report : Report

namespace Counted

/-- A part that needed no change. -/
protected def pure {α : Type} (a : α) : Counted α := ⟨a, .none⟩

/-- One part after another. -/
protected def bind {α β : Type} (x : Counted α) (f : α → Counted β) : Counted β :=
  let y := f x.value
  ⟨y.value, x.report.add y.report⟩

instance : Monad Counted where
  pure := Counted.pure
  bind := Counted.bind

@[simp] theorem value_pure {α : Type} (a : α) : (pure a : Counted α).value = a := rfl

@[simp] theorem report_pure {α : Type} (a : α) : (pure a : Counted α).report = .none := rfl

@[simp] theorem value_bind {α β : Type} (x : Counted α) (f : α → Counted β) :
    (x >>= f).value = (f x.value).value := rfl

@[simp] theorem report_bind {α β : Type} (x : Counted α) (f : α → Counted β) :
    (x >>= f).report = x.report.add (f x.value).report := rfl

/-- A part that came from evaluating an operator. -/
def folded {α : Type} (a : α) : Counted α := ⟨a, { Report.none with folded := 1 }⟩

/-- A part that came from an identity or a decided condition. -/
def simplified {α : Type} (a : α) : Counted α := ⟨a, { Report.none with simplified := 1 }⟩

/-- What is left after so many statements were removed. -/
def removed {α : Type} (n : Nat) (a : α) : Counted α := ⟨a, { Report.none with removed := n }⟩

/-- A shift that was a multiplication. -/
def strengthReduced {α : Type} (a : α) : Counted α := ⟨a, { Report.none with strengthReduced := 1 }⟩

end Counted

/-! ### Operators on constants -/

/-- The value of an operator on two words; none for the truth operators and wherever evaluation
could trap. The remainder of the least word by minus one is left alone together with the quotient.
-/
def foldWords (op : BinaryOp) (a b : Word) (span : Span) : Option Expr :=
  let divisible := b != 0 && !(a == Word.least && b == -1)
  match op with
  | .add => some (.int (a + b) span)
  | .sub => some (.int (a - b) span)
  | .mul => some (.int (a * b) span)
  | .div => if divisible then some (.int (a.sdiv b) span) else none
  | .rem => if divisible then some (.int (a.srem b) span) else none
  | .eq => some (.bool (a == b) span)
  | .ne => some (.bool (a != b) span)
  | .lt => some (.bool (a.slt b) span)
  | .le => some (.bool (a.sle b) span)
  | .gt => some (.bool (b.slt a) span)
  | .ge => some (.bool (b.sle a) span)
  | .and | .or => none

/-- The value of an operator on two truth values. -/
def foldBools (op : BinaryOp) (a b : Bool) (span : Span) : Option Expr :=
  match op with
  | .eq => some (.bool (a == b) span)
  | .ne => some (.bool (a != b) span)
  | .and => some (.bool (a && b) span)
  | .or => some (.bool (a || b) span)
  | _ => none

/-- The value of an operator on two constants. -/
def fold? (op : BinaryOp) (lhs rhs : Expr) (span : Span) : Option Expr :=
  match lhs, rhs with
  | .int a _, .int b _ => foldWords op a b span
  | .bool a _, .bool b _ => foldBools op a b span
  | _, _ => none

/-! ### Identities -/

def isInt (value : Word) : Expr → Bool
  | .int v _ => v == value
  | _ => false

def isBool (value : Bool) : Expr → Bool
  | .bool v _ => v == value
  | _ => false

/-- What an operator comes to when one operand is its neutral or absorbing constant. An operand is
absorbed only if it is not evaluated anyway or its evaluation cannot be noticed. -/
def simplify? (op : BinaryOp) (lhs rhs : Expr) (span : Span) : Option Expr :=
  match op with
  | .add =>
      if isInt 0 rhs then some lhs
      else if isInt 0 lhs then some rhs
      else none
  | .sub => if isInt 0 rhs then some lhs else none
  | .mul =>
      if isInt 1 rhs then some lhs
      else if isInt 1 lhs then some rhs
      else if isInt 0 rhs && lhs.isPure then some (.int 0 span)
      else if isInt 0 lhs && rhs.isPure then some (.int 0 span)
      else none
  | .div => if isInt 1 rhs then some lhs else none
  | .and =>
      if isBool true lhs then some rhs
      else if isBool false lhs then some (.bool false span)
      else if isBool true rhs then some lhs
      else if isBool false rhs && lhs.isPure then some (.bool false span)
      else none
  | .or =>
      if isBool false lhs then some rhs
      else if isBool true lhs then some (.bool true span)
      else if isBool false rhs then some lhs
      else if isBool true rhs && lhs.isPure then some (.bool true span)
      else none
  | _ => none

/-! ### Shifts -/

/-- The exponent of a constant power of two greater than one, as a signed number. -/
def shiftAmount? : Expr → Option Nat
  | .int v _ =>
      let exponent := v.toNat.log2
      if 0 < exponent && exponent < 31 && v.toNat == 1 <<< exponent then some exponent else none
  | _ => none

/-- The operator on operands that are optimized, as a shift if that is asked for and possible. -/
def reduceStrength (options : Options) (op : BinaryOp) (lhs rhs : Expr) (span : Span) :
    Counted Expr :=
  if options.strengthReduction && op == .mul then
    match shiftAmount? rhs, shiftAmount? lhs with
    | some amount, _ => .strengthReduced (.shl lhs amount span)
    | none, some amount => .strengthReduced (.shl rhs amount span)
    | none, none => pure (.binary op lhs rhs span)
  else pure (.binary op lhs rhs span)

/-! ### Expressions -/

def unary (options : Options) (op : UnaryOp) (operand : Expr) (span : Span) : Counted Expr :=
  let plain := pure (.unary op operand span)
  match op, operand with
  | .neg, .int value _ => if 1 ≤ options.level then .folded (.int (-value) span) else plain
  | .not, .bool value _ => if 1 ≤ options.level then .folded (.bool (!value) span) else plain
  | .not, .unary .not inner _ => if 2 ≤ options.level then .simplified inner else plain
  | _, _ => plain

/-- An operator on operands that are optimized: evaluated, else simplified, else perhaps a shift. -/
def binary (options : Options) (op : BinaryOp) (lhs rhs : Expr) (span : Span) : Counted Expr :=
  match if 1 ≤ options.level then fold? op lhs rhs span else none with
  | some e => .folded e
  | none =>
      match if 2 ≤ options.level then simplify? op lhs rhs span else none with
      | some e => .simplified e
      | none => reduceStrength options op lhs rhs span

mutual

/-- Optimizes an expression from its leaves up. -/
def expr (options : Options) : Expr → Counted Expr
  | .int value span => pure (.int value span)
  | .bool value span => pure (.bool value span)
  | .var index type span => pure (.var index type span)
  | .slot index type span => pure (.slot index type span)
  | .unary op operand span => do
      let operand ← expr options operand
      unary options op operand span
  | .binary op lhs rhs span => do
      let lhs ← expr options lhs
      let rhs ← expr options rhs
      binary options op lhs rhs span
  | .shl value amount span => do
      let value ← expr options value
      return .shl value amount span
  | .call function args result span => do
      let args ← exprs options args
      return .call function args result span
  | .builtin kind args span => do
      let args ← exprs options args
      return .builtin kind args span

def exprs (options : Options) : List Expr → Counted (List Expr)
  | [] => pure []
  | e :: rest => do
      let first ← expr options e
      let rest ← exprs options rest
      return first :: rest

end

/-! ### Statements -/

/-- The statements up to the first that control never passes. -/
def cutUnreachable : List Stmt → List Stmt
  | [] => []
  | s :: rest => if s.diverges then [s] else s :: cutUnreachable rest

/-- An optimized sequence, without what is out of reach on level 3. -/
def finishBlock (options : Options) (stmts : List Stmt) : Counted (List Stmt) :=
  if 3 ≤ options.level then
    let kept := cutUnreachable stmts
    .removed (stmts.length - kept.length) kept
  else pure stmts

mutual

/-- Optimizes a statement; a decided one becomes none or several. -/
def stmt (options : Options) : Stmt → Counted (List Stmt)
  | .letIn index value span => do
      let value ← expr options value
      return [.letIn index value span]
  | .set index value span => do
      let value ← expr options value
      return [.set index value span]
  | .store slot value span => do
      let value ← expr options value
      return [.store slot value span]
  | .eval value span => do
      let value ← expr options value
      return [.eval value span]
  | .returns (some value) span => do
      let value ← expr options value
      return [.returns (some value) span]
  | .returns none span => pure [.returns none span]
  | .require cond span => do
      let cond ← expr options cond
      if 2 ≤ options.level && isBool true cond then .removed 1 []
      else return [.require cond span]
  | .ifThen cond yes no span => do
      let cond ← expr options cond
      let yes ← block options yes
      let no ← block options no
      if 2 ≤ options.level && isBool true cond then .simplified yes
      else if 2 ≤ options.level && isBool false cond then .simplified no
      else return [.ifThen cond yes no span]
  | .whileDo cond body span => do
      let cond ← expr options cond
      if 2 ≤ options.level && isBool false cond then .removed 1 []
      else
        let body ← block options body
        return [.whileDo cond body span]

def block (options : Options) (body : List Stmt) : Counted (List Stmt) := do
  let body ← stmts options body
  finishBlock options body

def stmts (options : Options) : List Stmt → Counted (List Stmt)
  | [] => pure []
  | s :: rest => do
      let first ← stmt options s
      let rest ← stmts options rest
      return first ++ rest

end

/-! ### Contracts -/

def functions (options : Options) : List Function → Counted (List Function)
  | [] => pure []
  | f :: rest => do
      let body ← block options f.body
      let rest ← functions options rest
      return { f with body } :: rest

end Optimization

def Contract.optimize (options : Optimization.Options) (contract : Contract) :
    Optimization.Counted Contract := do
  let functions ← Optimization.functions options contract.functions
  return { contract with functions }

end Workbench.Lowered
