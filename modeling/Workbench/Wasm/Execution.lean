import Workbench.Lang.Word
import Workbench.Wasm.Module

/-!
# Running modules

Code runs on a stack of words and the locals of its function. A block works on a stack of its own
and leaves as many words as its type says, so what lies below cannot be touched. Functions of the
host have a state of their own, which every run hands on.

Runs are bounded twice. Fuel is what a run may take at most and is no part of the meaning: more fuel
never changes an outcome that was reached. The depth of calls is part of it: beyond it a run traps.
-/

namespace Workbench.Wasm

open Lang (Word)

/-! ### Traps -/

/-- What ends a run early. -/
inductive Trap where
  | unreachable
  | divideByZero
  | overflow
  | stackExhausted
  /-- The host stopped the run. -/
  | host
  deriving DecidableEq, Repr, Inhabited

def Trap.text : Trap → String
  | unreachable => "wasm `unreachable` instruction executed"
  | divideByZero => "integer divide by zero"
  | overflow => "integer overflow"
  | stackExhausted => "call stack exhausted"
  | host => "host stopped the run"

/-! ### Arithmetic -/

def quotient (a b : Word) : Except Trap Word :=
  match Word.quotient? a b with
  | some q => .ok q
  | none => .error (if b = 0 then .divideByZero else .overflow)

def remainder (a b : Word) : Except Trap Word :=
  match Word.remainder? a b with
  | some r => .ok r
  | none => .error .divideByZero

/-- The value of an instruction on two words. Shifts take their amount modulo the width. -/
def NumOp.apply (op : NumOp) (a b : Word) : Except Trap Word :=
  match op with
  | .add => .ok (a + b)
  | .sub => .ok (a - b)
  | .mul => .ok (a * b)
  | .divS => quotient a b
  | .remS => remainder a b
  | .shl => .ok (a <<< (b.toNat % 32))
  | .eq => .ok (Word.ofBool (a == b))
  | .ne => .ok (Word.ofBool (a != b))
  | .ltS => .ok (Word.ofBool (a.slt b))
  | .gtS => .ok (Word.ofBool (b.slt a))
  | .leS => .ok (Word.ofBool (a.sle b))
  | .geS => .ok (Word.ofBool (b.sle a))

/-! ### Instances -/

/-- A function that the host gives to a module. -/
structure HostFunction (State : Type) where
  type : FuncType
  /-- The words that a call gives, or none if the host stops the run, and the state behind it. -/
  run : List Word → State → Option (List Word) × State

/-- A module with a function of the host for each of its imports. -/
structure Instance (State : Type) where
  module : Module
  hosts : List (HostFunction State)

/-- The stack of operands, the uppermost first, and the locals of a function. -/
structure Activation where
  stack : List Word
  locals : List Word
  deriving DecidableEq, Repr, Inhabited

/-- How the run of a piece of code ends. -/
inductive Flow (State : Type) where
  /-- The code was left at its end. -/
  | next (act : Activation) (state : State)
  /-- The code was left by a branch; so many enclosing blocks are left before the one that is meant.
  -/
  | branch (depth : Nat) (act : Activation) (state : State)
  | returned (act : Activation) (state : State)
  | trapped (trap : Trap) (state : State)
  /-- The code does not fit its operands, which never happens to valid code. -/
  | stuck (state : State)
  | outOfFuel (state : State)
  deriving Repr

/-- The uppermost words as arguments in order, and what lies below; none if there are too few. -/
def takeArgs? (count : Nat) (stack : List Word) : Option (List Word × List Word) :=
  if count ≤ stack.length then some ((stack.take count).reverse, stack.drop count) else none

namespace Instance

variable {State : Type} (inst : Instance State)

/-- A function of the module with its type, by its number among all functions. -/
def func? (index : Nat) : Option (Func × FuncType) := do
  let f ← inst.module.funcs[index - inst.hosts.length]?
  return (f, ← inst.module.types[f.type]?)

/-- The activation in which the body of a function starts: no operands, and zeros behind the
arguments. -/
def entry (f : Func) (args : List Word) : Activation :=
  ⟨[], args ++ List.replicate f.extraLocals 0⟩

/-- Runs code. The first number is the fuel, the second how many calls may still be nested. -/
def exec : Nat → Nat → List Instr → Activation → State → Flow State
  | _, _, [], act, state => .next act state
  | 0, _, _ :: _, _, state => .outOfFuel state
  | fuel + 1, depth, i :: rest, act, state =>
      match i, act.stack with
      | .unreachable, _ => .trapped .unreachable state
      | .block body, stack =>
          match exec fuel depth body ⟨[], act.locals⟩ state with
          | .next f state | .branch 0 f state => exec fuel depth rest ⟨stack, f.locals⟩ state
          | .branch (n + 1) f state => .branch n f state
          | other => other
      | .loop body, stack =>
          match exec fuel depth body ⟨[], act.locals⟩ state with
          | .next f state => exec fuel depth rest ⟨stack, f.locals⟩ state
          | .branch 0 f state => exec fuel depth (.loop body :: rest) ⟨stack, f.locals⟩ state
          | .branch (n + 1) f state => .branch n f state
          | other => other
      | .ifElse results yes no, cond :: stack =>
          match exec fuel depth (if cond = 0 then no else yes) ⟨[], act.locals⟩ state with
          | .next f state | .branch 0 f state =>
              exec fuel depth rest ⟨f.stack.take results ++ stack, f.locals⟩ state
          | .branch (n + 1) f state => .branch n f state
          | other => other
      | .br n, _ => .branch n act state
      | .brIf n, cond :: stack =>
          if cond = 0 then exec fuel depth rest ⟨stack, act.locals⟩ state
          else .branch n ⟨stack, act.locals⟩ state
      | .ret, _ => .returned act state
      | .call index, stack =>
          match inst.hosts[index]? with
          | some host =>
              match takeArgs? host.type.params stack with
              | none => .stuck state
              | some (args, stack) =>
                  match host.run args state with
                  | (some words, state) =>
                      exec fuel depth rest ⟨words.reverse ++ stack, act.locals⟩ state
                  | (none, state) => .trapped .host state
          | none =>
              match inst.func? index with
              | none => .stuck state
              | some (f, type) =>
                  match takeArgs? type.params stack, depth with
                  | none, _ => .stuck state
                  | some _, 0 => .trapped .stackExhausted state
                  | some (args, stack), depth' + 1 =>
                      match exec fuel depth' f.body (entry f args) state with
                      | .next g state | .branch 0 g state | .returned g state =>
                          exec fuel depth rest ⟨g.stack.take type.results ++ stack, act.locals⟩
                            state
                      | .branch (_ + 1) _ state => .stuck state
                      | other => other
      | .drop, _ :: stack => exec fuel depth rest ⟨stack, act.locals⟩ state
      | .localGet index, stack =>
          match act.locals[index]? with
          | some value => exec fuel depth rest ⟨value :: stack, act.locals⟩ state
          | none => .stuck state
      | .localSet index, value :: stack =>
          if index < act.locals.length then
            exec fuel depth rest ⟨stack, act.locals.set index value⟩ state
          else .stuck state
      | .const value, stack => exec fuel depth rest ⟨value :: stack, act.locals⟩ state
      | .eqz, value :: stack =>
          exec fuel depth rest ⟨Word.ofBool (value == 0) :: stack, act.locals⟩ state
      | .num op, b :: a :: stack =>
          match op.apply a b with
          | .ok value => exec fuel depth rest ⟨value :: stack, act.locals⟩ state
          | .error trap => .trapped trap state
      | _, _ => .stuck state

@[simp] theorem exec_nil (fuel depth : Nat) (act : Activation) (state : State) :
    inst.exec fuel depth [] act state = .next act state := by
  simp only [exec]

/-! ### Calls from outside -/

/-- How a call from outside ends. -/
inductive Ending where
  /-- The function gave these words. -/
  | gave (words : List Word)
  | trapped (trap : Trap)
  /-- There is no such function, or the module is not valid. -/
  | stuck
  | outOfFuel
  deriving DecidableEq, Repr, Inhabited

/-- Calls a function by its number. -/
def invoke (fuel depth index : Nat) (args : List Word) (state : State) : Ending × State :=
  match inst.func? index, depth with
  | none, _ => (.stuck, state)
  | some _, 0 => (.trapped .stackExhausted, state)
  | some (f, type), depth + 1 =>
      match inst.exec fuel depth f.body (entry f args) state with
      | .next g state | .branch 0 g state | .returned g state =>
          (.gave (g.stack.take type.results).reverse, state)
      | .trapped trap state => (.trapped trap, state)
      | .branch (_ + 1) _ state | .stuck state => (.stuck, state)
      | .outOfFuel state => (.outOfFuel, state)

/-- Calls a function by the name under which it is exported. -/
def invokeExport (fuel depth : Nat) (name : String) (args : List Word) (state : State) :
    Ending × State :=
  match inst.module.exports.find? fun e => e.name == name with
  | some e => inst.invoke fuel depth e.function args state
  | none => (.stuck, state)

end Instance

end Workbench.Wasm
