import Workbench.Wasm.Module

/-!
# Validity of modules

Code is sound if the operand stack has the right height everywhere; as all values are words, heights
are all there is to types. Behind a branch, a return or a trap the code is out of reach, and
operands that are missing there can be assumed.

A module is valid if its code is sound, its positions exist and its exports have different names.
Beyond that an implementation has limits, which `Module.withinLimits` states.
-/

namespace Workbench.Wasm

/-! ### Heights -/

/-- What is known of the operand stack of the innermost block. -/
structure Height where
  words : Nat
  /-- Whether code with this stack can be reached. -/
  reachable : Bool
  deriving DecidableEq, Repr, Inhabited

namespace Height

/-- The stack at the start of a block. -/
def empty : Height := ⟨0, true⟩

/-- The stack behind code that control does not pass. -/
def dead : Height := ⟨0, false⟩

/-- The stack without so many words; none if they are missing. -/
def pop? (h : Height) (count : Nat) : Option Height :=
  if count ≤ h.words then some { h with words := h.words - count }
  else if h.reachable then none
  else some { h with words := 0 }

/-- The stack with so many words more. -/
def push (h : Height) (count : Nat) : Height :=
  { h with words := h.words + count }

/-- Whether a block that leaves so many words may end with a stack. -/
def ends (h : Height) (results : Nat) : Bool :=
  (h.pop? results).any fun rest => rest.words = 0

end Height

/-! ### Code -/

/-- What the code of a function can refer to. -/
structure Scope where
  results : Nat
  locals : Nat
  /-- The types of all functions of the module, imports first. -/
  functions : List FuncType

mutual

/-- The stack behind an instruction; none if it does not fit. The labels are the numbers of words
that branches carry to the enclosing blocks, innermost first. -/
def Instr.check? (scope : Scope) (labels : List Nat) (h : Height) : Instr → Option Height
  | .unreachable => some .dead
  | .block body | .loop body =>
      match checkInstrs? scope (0 :: labels) .empty body with
      | some inner => if inner.ends 0 then some h else none
      | none => none
  | .ifElse results yes no => do
      let h ← h.pop? 1
      let onYes ← checkInstrs? scope (results :: labels) .empty yes
      let onNo ← checkInstrs? scope (results :: labels) .empty no
      if onYes.ends results && onNo.ends results then some (h.push results) else none
  | .br depth => do
      let carried ← labels[depth]?
      let _ ← h.pop? carried
      return .dead
  | .brIf depth => do
      let carried ← labels[depth]?
      let h ← h.pop? 1
      let rest ← h.pop? carried
      return rest.push carried
  | .ret => (h.pop? scope.results).map fun _ => .dead
  | .call function => do
      let type ← scope.functions[function]?
      let h ← h.pop? type.params
      return h.push type.results
  | .drop => h.pop? 1
  | .localGet index => if index < scope.locals then some (h.push 1) else none
  | .localSet index => if index < scope.locals then h.pop? 1 else none
  | .const _ => some (h.push 1)
  | .eqz => (h.pop? 1).map (·.push 1)
  | .num _ => (h.pop? 2).map (·.push 1)

/-- The stack behind instructions in order. -/
def checkInstrs? (scope : Scope) (labels : List Nat) (h : Height) : List Instr → Option Height
  | [] => some h
  | i :: rest =>
      match i.check? scope labels h with
      | some h => checkInstrs? scope labels h rest
      | none => none

end

/-! ### Modules -/

namespace Module

/-- The types of all functions, imports first; none if a type does not exist. -/
def functionTypes? (m : Module) : Option (List FuncType) :=
  (m.imports.map (·.type) ++ m.funcs.map (·.type)).mapM m.type?

def isSound (m : Module) (functions : List FuncType) (f : Func) : Bool :=
  match m.type? f.type with
  | none => false
  | some type =>
      let scope : Scope := ⟨type.results, type.params + f.extraLocals, functions⟩
      (checkInstrs? scope [type.results] .empty f.body).any fun h => h.ends type.results

/-- Whether code, positions and export names of a module are sound. -/
def isValid (m : Module) : Bool :=
  match m.functionTypes? with
  | none => false
  | some functions =>
      m.funcs.all (m.isSound functions) &&
        m.exports.all (fun e => e.function < functions.length) &&
        decide (m.exports.map (·.name)).Nodup

/-- The most parameters that a function can have. -/
def maxParams : Nat := 1000

/-- The most locals that a function can have, its parameters included. -/
def maxLocals : Nat := 50000

/-- The longest name of an export, in bytes. -/
def maxNameSize : Nat := 100000

/-- Whether a module keeps to the limits of implementations. -/
def withinLimits (m : Module) : Bool :=
  m.types.all (fun t => t.params ≤ maxParams) &&
    m.funcs.all (fun f =>
      (m.type? f.type).any fun t => t.params + f.extraLocals ≤ maxLocals) &&
    m.exports.all fun e => e.name.utf8ByteSize ≤ maxNameSize

end Module

end Workbench.Wasm
