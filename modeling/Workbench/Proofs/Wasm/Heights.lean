import Workbench.Wasm.Validation

/-!
# Heights of code

Checks of code put together from parts: what a check finds behind the first part is where it starts
on the next. The rules here are those that code made of expressions and statements needs; each tells
the height behind a construct from the heights behind its parts.
-/

namespace Workbench.Wasm

open Lang (Word)

namespace Height

variable (h : Height)

@[simp] theorem push_zero : h.push 0 = h := rfl

@[simp] theorem push_push (a b : Nat) : (h.push a).push b = h.push (a + b) := by
  simp [push, Nat.add_assoc]

/-- What has been pushed can be popped, whether the code can be reached or not. -/
@[simp] theorem pop?_push (count : Nat) : (h.push count).pop? count = some h := by
  simp [pop?, push]

@[simp] theorem pop?_zero : h.pop? 0 = some h := by
  simp [pop?]

/-- A block that leaves nothing may end with no words on its stack. -/
theorem ends_zero {h : Height} (none : h.words = 0) : h.ends 0 := by
  simp [ends, none]

theorem ends_push (count : Nat) : (empty.push count).ends count := by
  simp [ends, empty]

theorem ends_dead (results : Nat) : dead.ends results := by
  unfold ends pop? dead
  split <;> simp

end Height

/-- The check passes code, from a height to the one behind it. -/
def Leaves (scope : Scope) (labels : List Nat) (h : Height) (code : List Instr) (h' : Height) :
    Prop :=
  checkInstrs? scope labels h code = some h'

namespace Leaves

variable {scope : Scope} {labels : List Nat} {h h' h'' : Height} {code rest : List Instr}

theorem nil : Leaves scope labels h [] h := rfl

/-- The check passes instructions one by one. -/
theorem cons_iff {i : Instr} :
    Leaves scope labels h (i :: rest) h'' ↔
      ∃ h', i.check? scope labels h = some h' ∧ Leaves scope labels h' rest h'' := by
  unfold Leaves
  rw [checkInstrs?]
  cases i.check? scope labels h <;> simp

theorem cons {i : Instr} (first : i.check? scope labels h = some h')
    (others : Leaves scope labels h' rest h'') : Leaves scope labels h (i :: rest) h'' :=
  cons_iff.2 ⟨h', first, others⟩

theorem single {i : Instr} (check : i.check? scope labels h = some h') :
    Leaves scope labels h [i] h' :=
  .cons check .nil

theorem append (first : Leaves scope labels h code h') (others : Leaves scope labels h' rest h'') :
    Leaves scope labels h (code ++ rest) h'' := by
  induction code generalizing h with
  | nil =>
      cases first
      exact others
  | cons i code ih =>
      obtain ⟨between, check, first⟩ := cons_iff.1 first
      exact .cons check (ih first)

/-! ### Plain instructions -/

attribute [local simp] Instr.check?

theorem const (value : Word) : Leaves scope labels h [.const value] (h.push 1) :=
  .single rfl

theorem localGet {index : Nat} (lt : index < scope.locals) :
    Leaves scope labels h [.localGet index] (h.push 1) :=
  .single (if_pos lt)

theorem localSet {index : Nat} (lt : index < scope.locals) :
    Leaves scope labels (h.push 1) [.localSet index] h :=
  .single ((if_pos lt).trans (h.pop?_push 1))

theorem eqz : Leaves scope labels (h.push 1) [.eqz] (h.push 1) :=
  .single (congrArg (Option.map fun below : Height => below.push 1) (h.pop?_push 1))

theorem num (op : NumOp) : Leaves scope labels (h.push 2) [.num op] (h.push 1) :=
  .single (congrArg (Option.map fun below : Height => below.push 1) (h.pop?_push 2))

theorem drop : Leaves scope labels (h.push 1) [.drop] h :=
  .single (h.pop?_push 1)

theorem unreachable : Leaves scope labels h [.unreachable] .dead :=
  .single rfl

theorem ret : Leaves scope labels (h.push scope.results) [.ret] .dead :=
  .single (congrArg (Option.map fun _ => Height.dead) (h.pop?_push scope.results))

theorem call {function : Nat} {type : FuncType} (known : scope.functions[function]? = some type) :
    Leaves scope labels (h.push type.params) [.call function] (h.push type.results) :=
  .single (by simp [known])

/-! ### Blocks and branches -/

theorem br {depth : Nat} (label : labels[depth]? = some 0) :
    Leaves scope labels h [.br depth] .dead :=
  .single (by simp [label])

theorem brIf {depth : Nat} (label : labels[depth]? = some 0) :
    Leaves scope labels (h.push 1) [.brIf depth] h :=
  .single (by simp [label])

theorem block {inner : Height} (body : Leaves scope (0 :: labels) .empty code inner)
    (ends : inner.ends 0) : Leaves scope labels h [.block code] h := by
  have body : checkInstrs? scope (0 :: labels) .empty code = some inner := body
  exact .single (by simp [body, ends])

theorem loop {inner : Height} (body : Leaves scope (0 :: labels) .empty code inner)
    (ends : inner.ends 0) : Leaves scope labels h [.loop code] h := by
  have body : checkInstrs? scope (0 :: labels) .empty code = some inner := body
  exact .single (by simp [body, ends])

theorem ifElse {results : Nat} {yes no : List Instr} {onYes onNo : Height}
    (hy : Leaves scope (results :: labels) .empty yes onYes) (endsYes : onYes.ends results)
    (hn : Leaves scope (results :: labels) .empty no onNo) (endsNo : onNo.ends results) :
    Leaves scope labels (h.push 1) [.ifElse results yes no] (h.push results) := by
  have hy : checkInstrs? scope (results :: labels) .empty yes = some onYes := hy
  have hn : checkInstrs? scope (results :: labels) .empty no = some onNo := hn
  exact .single (by simp [hy, hn, endsYes, endsNo])

end Leaves

/-! ### Code that leaves nothing -/

/-- The check passes code wherever the stack of the block is empty, and finds it empty behind it. -/
def Settles (scope : Scope) (labels : List Nat) (code : List Instr) : Prop :=
  ∀ h : Height, h.words = 0 → ∃ h', h'.words = 0 ∧ Leaves scope labels h code h'

namespace Settles

variable {scope : Scope} {labels : List Nat} {code rest : List Instr}

/-- Code that leaves the stack as it found it. -/
theorem of_leaves (leaves : ∀ h, Leaves scope labels h code h) : Settles scope labels code :=
  fun h empty => ⟨h, empty, leaves h⟩

/-- Code that control does not pass. -/
theorem of_dead (leaves : ∀ h, Leaves scope labels h code .dead) : Settles scope labels code :=
  fun h _ => ⟨.dead, rfl, leaves h⟩

theorem append (first : Settles scope labels code) (others : Settles scope labels rest) :
    Settles scope labels (code ++ rest) := by
  intro h empty
  obtain ⟨between, emptyBetween, leavesFirst⟩ := first h empty
  obtain ⟨h', emptyBehind, leavesOthers⟩ := others between emptyBetween
  exact ⟨h', emptyBehind, leavesFirst.append leavesOthers⟩

/-- The code of a whole block. -/
theorem whole (settles : Settles scope labels code) :
    ∃ h', h'.ends 0 ∧ Leaves scope labels .empty code h' := by
  obtain ⟨h', empty, leaves⟩ := settles .empty rfl
  exact ⟨h', Height.ends_zero empty, leaves⟩

/-- A conditional of which both branches leave nothing. -/
theorem ifElse {yes no : List Instr} (hy : Settles scope (0 :: labels) yes)
    (hn : Settles scope (0 :: labels) no) (h : Height) :
    Leaves scope labels (h.push 1) [.ifElse 0 yes no] h := by
  obtain ⟨onYes, endsYes, leavesYes⟩ := hy.whole
  obtain ⟨onNo, endsNo, leavesNo⟩ := hn.whole
  exact .ifElse leavesYes endsYes leavesNo endsNo

end Settles

end Workbench.Wasm
