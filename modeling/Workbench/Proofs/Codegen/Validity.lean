import Workbench.Proofs.Codegen.References
import Workbench.Proofs.Wasm.Heights

/-!
# Generated modules are valid

The code of a typed expression puts the words of its type on the stack, whatever lies there and
whether control comes to it or not. A statement starts and ends with nothing on the stack of its
block; behind one that returns everything is out of reach. So the code of a function that owes a
value, which ends out of reach, and that of one that owes none, which ends with nothing, both fit
their types. All positions in the code are those of declarations and imports, with their types.
-/

namespace Workbench.Codegen

open Source (Span)
open Lang (Ty BinaryOp Builtin)
open Lowered (Expr Stmt Function Contract Signature ArgsTyped StmtsTyped)
open Wasm (Instr FuncType Import Func Export Module Scope Height Leaves Settles
  checkInstrs?)

/-- The types of the functions of a module are those that the numbers of a layout stand for in a
contract. -/
structure Declares (c : Contract) (layout : Layout) (functions : List FuncType) : Prop where
  builtin : ∀ kind ∈ layout.imports,
    functions[layout.importIndex kind]? = some (builtinType kind)
  function : ∀ (index : Nat) (f : Function), c.functions[index]? = some f →
    functions[layout.functionIndex index]? = some (functionType f)

/-- What the code of a function of a contract can refer to. -/
def scopeOf (functions : List FuncType) (f : Function) : Scope :=
  ⟨words f.result, f.locals.length, functions⟩

theorem words_of_hasValue {type : Ty} (h : type.hasValue) : words type = 1 :=
  if_pos h

section

variable {c : Contract} {layout : Layout} {functions : List FuncType} {f : Function}
  {live : List Nat}

/-! ### Expressions -/

/-- A variable of the function is among the locals of its code. -/
theorem lt_locals {index : Nat} {type : Ty} (known : (c.context f).locals[index]? = some type) :
    index < f.locals.length := by
  simpa [Contract.context] using (List.getElem?_eq_some_iff.1 known).1

/-- A function that is called by its number has the type of its signature. -/
theorem Declares.called (declares : Declares c layout functions) (typed : c.Typed)
    {function : Nat} {sig : Signature}
    (declared : (c.context f).signatures[function]? = some sig) :
    functions[layout.functionIndex function]? = some ⟨sig.params.length, words sig.result⟩ := by
  obtain ⟨g, found, rfl⟩ : ∃ g, c.functions[function]? = some g ∧ g.signature = sig := by
    simpa [Contract.context] using declared
  have typedCallee := typed g (List.mem_of_getElem? found)
  have count : (functionType g).params = g.signature.params.length := by
    rw [params_functionType typedCallee, Lowered.Function.length_signature typedCallee]
  rw [declares.function function g found, ← count]
  rfl

/-- The check passes the code of an expression, which leaves the words of the value. -/
def ExprLeaves (layout : Layout) (scope : Scope) (e : Expr) : Prop :=
  ∀ (labels : List Nat) (h : Height),
    Leaves scope labels h (exprCode layout e) (h.push (words e.type))

theorem ExprLeaves.word {scope : Scope} {e : Expr} (leaves : ExprLeaves layout scope e)
    (has : e.type.hasValue) (labels : List Nat) (h : Height) :
    Leaves scope labels h (exprCode layout e) (h.push 1) :=
  words_of_hasValue has ▸ leaves labels h

theorem exprs_leave {scope : Scope} {args : List Expr}
    (each : ∀ a ∈ args, ExprLeaves layout scope a) (has : ∀ a ∈ args, a.type.hasValue)
    (labels : List Nat) (h : Height) :
    Leaves scope labels h (exprsCode layout args) (h.push args.length) := by
  induction args generalizing h with
  | nil => exact .nil
  | cons e es ih =>
      obtain ⟨first, others⟩ := List.forall_mem_cons.1 each
      obtain ⟨hasFirst, hasOthers⟩ := List.forall_mem_cons.1 has
      have rest := ih others hasOthers (h.push 1)
      rw [Height.push_push, Nat.add_comm] at rest
      exact (first.word hasFirst labels h).append rest

/-- An operator finds the words of both operands, or the second one in a branch. -/
theorem binary_leaves {scope : Scope} {op : BinaryOp} {lhs rhs : Expr}
    (hl : ExprLeaves layout scope lhs) (hr : ExprLeaves layout scope rhs)
    (hasl : lhs.type.hasValue) (hasr : rhs.type.hasValue) (labels : List Nat) (h : Height) :
    Leaves scope labels h (binaryCode op (exprCode layout lhs) (exprCode layout rhs))
      (h.push 1) := by
  have first := hl.word hasl labels h
  have branch := hr.word hasr (1 :: labels) .empty
  have value (b : Lang.Word) : Leaves scope (1 :: labels) .empty [.const b] (Height.empty.push 1) :=
    .const b
  have ends := Height.ends_push 1
  cases found : numOp? op with
  | some num =>
      have both := first.append (hr.word hasr labels (h.push 1))
      rw [Height.push_push] at both
      rw [binaryCode_of_numOp found]
      exact both.append (.num num)
  | none =>
      cases op with
      | and => exact first.append (.ifElse branch ends (value 0) ends)
      | or => exact first.append (.ifElse (value 1) ends branch ends)
      | _ => contradiction

/-- The code of a typed expression leaves the words of its value. -/
theorem expr_leaves (typedContract : c.Typed) (declares : Declares c layout functions) {e : Expr}
    (typed : e.Typed (c.context f) live) (covers : Covers layout e) :
    ExprLeaves layout (scopeOf functions f) e := by
  have arguments {args : List Expr} {params : List Ty}
      (each : ∀ a ∈ args, ExprLeaves layout (scopeOf functions f) a)
      (typed : ArgsTyped (c.context f) live args params) (labels : List Nat) (h : Height) :
      Leaves (scopeOf functions f) labels h (exprsCode layout args) (h.push params.length) :=
    typed.length_eq ▸ exprs_leave each typed.hasValue labels h
  induction e with
  | int value span => exact fun _ _ => .const value
  | bool value span => exact fun _ _ => .const _
  | var index type span =>
      intro labels h
      obtain ⟨-, known, has⟩ := typed
      rw [Expr.type, words_of_hasValue has]
      exact .localGet (lt_locals known)
  | slot index type span =>
      intro labels h
      have known := declares.builtin .storageLoad (covers.self rfl)
      have load := @Leaves.call (scopeOf functions f) labels h _ _ known
      rw [Expr.type, words_of_hasValue typed.2]
      exact (Leaves.const _).append load
  | unary op operand span ih =>
      intro labels h
      have has : operand.type.hasValue := typed.2 ▸ Lowered.hasValue_unaryType op
      have operandLeaves := ih typed.1 (covers.of_nodes (by simp [Expr.nodes]))
      rw [Expr.type, words_of_hasValue (Lowered.hasValue_unaryType op)]
      cases op with
      | neg =>
          have both := operandLeaves.word has labels (h.push 1)
          rw [Height.push_push] at both
          exact (Leaves.const 0).append (both.append (.num .sub))
      | not => exact (operandLeaves.word has labels h).append .eqz
  | binary op lhs rhs span ihl ihr =>
      intro labels h
      have hl := ihl typed.1 (covers.of_nodes (by simp [Expr.nodes]))
      have hr := ihr typed.2.1 (covers.of_nodes (by simp [Expr.nodes]))
      obtain ⟨hasl, hasr⟩ := typed.2.2.hasValue
      rw [Expr.type, words_of_hasValue (Lowered.hasValue_binaryType op)]
      exact binary_leaves hl hr hasl hasr labels h
  | shl value amount span ih =>
      intro labels h
      have has : value.type.hasValue := typed.2.1 ▸ rfl
      have valueLeaves := ih typed.1 (covers.of_nodes (by simp [Expr.nodes]))
      have both := (valueLeaves.word has labels h).append (.const (BitVec.ofNat 32 amount))
      rw [Height.push_push] at both
      have all := both.append (.num .shl)
      rwa [List.append_assoc] at all
  | call function args result span ih =>
      intro labels h
      obtain ⟨params, declared, argsTyped⟩ := typed
      have each : ∀ a ∈ args, ExprLeaves layout (scopeOf functions f) a := fun a ha =>
        ih a ha (argsTyped.typed_of_mem a ha) (covers.of_nodes fun _ h => by
          simp [Expr.nodes, nodes_subset_nodesOfList ha h])
      have known := declares.called typedContract declared
      have call := @Leaves.call (scopeOf functions f) labels h _ _ known
      exact (arguments each argsTyped labels h).append call
  | builtin kind args span ih =>
      intro labels h
      have each : ∀ a ∈ args, ExprLeaves layout (scopeOf functions f) a := fun a ha =>
        ih a ha (typed.2.typed_of_mem a ha) (covers.of_nodes fun _ h => by
          simp [Expr.nodes, nodes_subset_nodesOfList ha h])
      have call := declares.builtin kind (covers.self rfl)
      have before := arguments each typed.2 labels h
      rw [← params_builtinType kind] at before
      exact before.append (.call call)

/-! ### Statements -/

/-- The check passes the code of a statement wherever the statement is typed. -/
def StmtSettles (c : Contract) (layout : Layout) (functions : List FuncType) (f : Function)
    (s : Stmt) : Prop :=
  ∀ (live : List Nat) (labels : List Nat), s.Typed (c.context f) live → CoversStmt layout s →
    Settles (scopeOf functions f) labels (stmtCode layout s)

theorem block_settles_of_forall {body : List Stmt}
    (each : ∀ s ∈ body, StmtSettles c layout functions f s) {live : List Nat} (labels : List Nat)
    (typed : StmtsTyped (c.context f) live body) (covers : CoversBlock layout body) :
    Settles (scopeOf functions f) labels (blockCode layout body) := by
  induction body generalizing live with
  | nil => exact .of_leaves fun _ => .nil
  | cons s rest ih =>
      obtain ⟨first, others⟩ := List.forall_mem_cons.1 each
      exact (first live labels typed.1 covers.cons.1).append (ih others typed.2 covers.cons.2)

/-- The value of a variable is written to it. -/
theorem assign_settles {scope : Scope} {value : Expr} (leaves : ExprLeaves layout scope value)
    (has : value.type.hasValue) {index : Nat} (lt : index < scope.locals) (labels : List Nat) :
    Settles scope labels (exprCode layout value ++ [.localSet index]) :=
  .of_leaves fun h => (leaves.word has labels h).append (.localSet lt)

/-- The code of a loop leaves it through the block around it. -/
theorem loop_settles {scope : Scope} {cond : Expr} {body : List Stmt}
    (leaves : ExprLeaves layout scope cond) (has : cond.type.hasValue) (labels : List Nat)
    (settles : Settles scope (0 :: 0 :: labels) (blockCode layout body)) :
    Settles scope labels [.block [.loop
      (exprCode layout cond ++ [.eqz, .brIf 1] ++ blockCode layout body ++ [.br 0])]] := by
  obtain ⟨behind, -, bodyLeaves⟩ := settles .empty rfl
  have test : Leaves scope (0 :: 0 :: labels) .empty (exprCode layout cond ++ [.eqz, .brIf 1])
      .empty :=
    (leaves.word has _ .empty).append (Leaves.eqz.append (.brIf rfl))
  have back : Leaves scope (0 :: 0 :: labels) behind [.br 0] .dead := .br rfl
  have round := (test.append bodyLeaves).append back
  exact .of_leaves fun h => .block (.loop round (Height.ends_dead 0)) (Height.ends_zero rfl)

/-- The check passes the code of a typed statement. -/
theorem stmt_settles (typedContract : c.Typed) (declares : Declares c layout functions)
    {s : Stmt} : StmtSettles c layout functions f s := by
  have leaves {live : List Nat} {e : Expr} (typed : e.Typed (c.context f) live)
      (covers : Covers layout e) : ExprLeaves layout (scopeOf functions f) e :=
    expr_leaves typedContract declares typed covers
  have condition {e : Expr} (type : e.type = .bool) : e.type.hasValue := type ▸ rfl
  induction s with
  | letIn index value span =>
      intro live labels typed covers
      obtain ⟨typed, known, has⟩ := typed
      exact assign_settles (leaves typed covers) has (lt_locals known) labels
  | set index value span =>
      intro live labels typed covers
      obtain ⟨typed, known, has⟩ := typed
      exact assign_settles (leaves typed covers) has (lt_locals known) labels
  | store slot value span =>
      intro live labels typed covers
      obtain ⟨typed, -, has⟩ := typed
      have valueLeaves := leaves typed fun kind needed =>
        covers kind (List.mem_cons_of_mem _ needed)
      have known := declares.builtin .storageStore (covers _ List.mem_cons_self)
      refine .of_leaves fun h => (Leaves.const _).append ?_
      have value := valueLeaves.word has labels (h.push 1)
      rw [Height.push_push] at value
      exact value.append (@Leaves.call (scopeOf functions f) labels h _ _ known)
  | ifThen cond yes no span ihy ihn =>
      intro live labels typed covers
      obtain ⟨coversCond, coversYes, coversNo⟩ := covers.ifThen
      obtain ⟨⟨typedCond, type⟩, typedYes, typedNo⟩ := typed
      have branches := Settles.ifElse (block_settles_of_forall ihy (0 :: labels) typedYes coversYes)
        (block_settles_of_forall ihn (0 :: labels) typedNo coversNo)
      exact .of_leaves fun h =>
        ((leaves typedCond coversCond).word (condition type) labels h).append (branches h)
  | whileDo cond body span ih =>
      intro live labels typed covers
      obtain ⟨coversCond, coversBody⟩ := covers.whileDo
      obtain ⟨⟨typedCond, type⟩, typedBody⟩ := typed
      exact loop_settles (leaves typedCond coversCond) (condition type) labels
        (block_settles_of_forall ih _ typedBody coversBody)
  | returns value span =>
      intro live labels typed covers
      cases value with
      | none =>
          have none : (scopeOf functions f).results = 0 := congrArg words typed
          have ret (h : Height) := @Leaves.ret (scopeOf functions f) labels h
          rw [none] at ret
          exact .of_dead ret
      | some value =>
          obtain ⟨⟨typedValue, type⟩, -⟩ := typed
          have results : words value.type = (scopeOf functions f).results := congrArg words type
          refine .of_dead fun h => (leaves typedValue covers labels h).append ?_
          rw [results]
          exact .ret
  | require cond span =>
      intro live labels typed covers
      obtain ⟨typedCond, type⟩ := typed
      have stop : Settles (scopeOf functions f) (0 :: labels) [.unreachable] :=
        .of_dead fun _ => .unreachable
      have branches := stop.ifElse (.of_leaves fun _ => .nil)
      exact .of_leaves fun h =>
        ((leaves typedCond covers).word (condition type) labels h).append
          (Leaves.eqz.append (branches h))
  | eval value span =>
      intro live labels typed covers
      refine .of_leaves fun h => (leaves typed covers labels h).append ?_
      by_cases has : value.type.hasValue
      · rw [if_pos has, words_of_hasValue has]
        exact .drop
      · rw [if_neg has, words, if_neg has]
        exact .nil

/-! ### Functions -/

/-- The check passes the code of a typed function, which ends with its result or out of reach. -/
theorem function_leaves (typedContract : c.Typed) (declares : Declares c layout functions)
    (typed : c.TypedFunction f) (covers : CoversBlock layout f.body) :
    ∃ h, Leaves (scopeOf functions f) [words f.result] .empty (functionCode layout f) h ∧
      h.ends (words f.result) := by
  obtain ⟨h, empty, leaves⟩ := block_settles_of_forall (fun _ _ => stmt_settles typedContract
    declares) [words f.result] typed.body covers .empty rfl
  unfold functionCode
  by_cases has : f.result.hasValue
  · rw [if_pos has]
    exact ⟨.dead, leaves.append .unreachable, Height.ends_dead _⟩
  · rw [if_neg has, words, if_neg has, List.append_nil]
    rw [words, if_neg has] at leaves
    exact ⟨h, leaves, Height.ends_zero empty⟩

end

/-! ### Modules -/

section

variable (debugNames : Bool) (c : Contract)

/-- The types of the functions of a generated module: those of its imports and, behind them, those
of the functions of the contract. -/
def moduleTypes : List FuncType :=
  (imports c).map builtinType ++ c.functions.map functionType

theorem functionTypes?_generate :
    (generate debugNames c).functionTypes? = some (moduleTypes c) := by
  have positions : (generate debugNames c).imports.map (·.type) ++
      (generate debugNames c).funcs.map (·.type) =
        (moduleTypes c).map (typeIndex (generate debugNames c).types) := by
    simp [generate, moduleTypes, functionEntry, Function.comp_def]
  rw [Module.functionTypes?, positions]
  exact mapM_eq_some fun type used => getElem?_typeIndex used

theorem declares_moduleTypes : Declares c ⟨imports c⟩ (moduleTypes c) := by
  constructor
  · intro kind imported
    have found : (imports c)[(Layout.mk (imports c)).importIndex kind]? = some kind :=
      getElem?_idxOf? imported
    have lt : (Layout.mk (imports c)).importIndex kind < (imports c).length :=
      (List.getElem?_eq_some_iff.1 found).1
    rw [moduleTypes, List.getElem?_append_left (by simpa using lt), List.getElem?_map, found]
    rfl
  · intro index f found
    rw [moduleTypes, Layout.functionIndex, List.getElem?_append_right (by simp)]
    simp [found]

/-- The function of a module for a function of the contract has its type and its locals. -/
theorem type?_functionEntry {f : Function} (mem : f ∈ c.functions) :
    (generate debugNames c).type? (functionEntry ⟨imports c⟩ (generate debugNames c).types f).type =
      some (functionType f) :=
  getElem?_typeIndex (List.mem_append_right _ (List.mem_map_of_mem mem))

theorem isSound_functionEntry {f : Function} (typedContract : c.Typed) (mem : f ∈ c.functions) :
    (generate debugNames c).isSound (moduleTypes c)
      (functionEntry ⟨imports c⟩ (generate debugNames c).types f) := by
  have typed := typedContract f mem
  have locals : (functionType f).params + (f.locals.length - f.paramCount) = f.locals.length := by
    rw [params_functionType typed]
    exact Nat.add_sub_of_le typed.paramCount_le
  obtain ⟨h, leaves, ends⟩ := function_leaves typedContract (declares_moduleTypes c) typed
    fun _ needed => mem_imports mem needed
  have checked : checkInstrs? (scopeOf (moduleTypes c) f) [words f.result] .empty
      (functionCode ⟨imports c⟩ f) = some h := leaves
  rw [scopeOf, ← locals] at checked
  rw [Module.isSound, type?_functionEntry debugNames c mem]
  dsimp only [functionEntry, functionType] at checked ⊢
  rw [checked]
  exact ends

/-! ### Exports -/

theorem mem_exports {layout : Layout} {e : Export} :
    e ∈ exports layout c ↔ ∃ (index : Nat) (f : Function), c.functions[index]? = some f ∧
      f.isPublic ∧ e = ⟨f.name, layout.functionIndex index⟩ := by
  unfold exports
  constructor
  · intro mem
    obtain ⟨⟨f, index⟩, entry, exported⟩ := List.mem_filterMap.1 mem
    have found := List.mem_zipIdx_iff_getElem?.1 entry
    by_cases isPublic : f.isPublic
    · exact ⟨index, f, found, isPublic, by simpa [isPublic] using exported.symm⟩
    · simp [isPublic] at exported
  · rintro ⟨index, f, found, isPublic, rfl⟩
    exact List.mem_filterMap.2
      ⟨(f, index), List.mem_zipIdx_iff_getElem?.2 found, by simp [isPublic]⟩

/-- Exports have the names of the public functions, in order. -/
theorem exports_names (layout : Layout) :
    (exports layout c).map (·.name) = (c.functions.filter (·.isPublic)).map (·.name) := by
  have each (fs : List Function) (first : Nat) :
      ((fs.zipIdx first).filterMap fun entry =>
        if entry.1.isPublic then some (Export.mk entry.1.name (layout.functionIndex entry.2))
        else none).map (·.name) = (fs.filter (·.isPublic)).map (·.name) := by
    induction fs generalizing first with
    | nil => rfl
    | cons f rest ih =>
        rw [List.zipIdx_cons, List.filterMap_cons, List.filter_cons]
        by_cases isPublic : f.isPublic <;> simp [isPublic, ih]
  exact each c.functions 0

theorem exports_nodup (layout : Layout) (names : (c.functions.map (·.name)).Nodup) :
    ((exports layout c).map (·.name)).Nodup := by
  rw [exports_names]
  exact names.sublist (List.filter_sublist.map _)

theorem exports_lt (layout : Layout) (same : layout.imports = imports c) :
    ∀ e ∈ exports layout c, e.function < (moduleTypes c).length := by
  intro e mem
  obtain ⟨index, f, found, -, rfl⟩ := (mem_exports c).1 mem
  have lt := (List.getElem?_eq_some_iff.1 found).1
  simp only [moduleTypes, Layout.functionIndex, same, List.length_append, List.length_map]
  omega

/-! ### Positions -/

/-- The positions in a module mean what they are there for in a contract. -/
structure Denotes (m : Module) (c : Contract) : Prop where
  /-- The operations that a function refers to are imported by name, with their types. -/
  operation : ∀ f ∈ c.functions, ∀ kind, .operation kind ∈ Lowered.referencesOf f.body →
    ∃ i, m.imports[(Layout.mk (imports c)).importIndex kind]? = some i ∧
      i.moduleName = Builtin.importModule ∧ i.name = kind.importName ∧
      m.type? i.type = some (builtinType kind)
  /-- The functions follow the imports, with their types and locals, parameters first. The code of
  each refers to what the function refers to, in the same order. -/
  function : ∀ (index : Nat) (f : Function), c.functions[index]? = some f →
    (Layout.mk (imports c)).functionIndex index = m.imports.length + index ∧
      ∃ g, m.funcs[index]? = some g ∧ m.type? g.type = some (functionType f) ∧
        (functionType f).params = f.paramCount ∧ f.paramCount + g.extraLocals = f.locals.length ∧
        g.body = functionCode ⟨imports c⟩ f ∧
        Wasm.referencesOf g.body =
          (Lowered.referencesOf f.body).map (Layout.mk (imports c)).reference
  /-- The public functions, and no others, are exported under their names. -/
  exported : ∀ e, e ∈ m.exports ↔ ∃ (index : Nat) (f : Function), c.functions[index]? = some f ∧
    f.isPublic ∧ e = ⟨f.name, (Layout.mk (imports c)).functionIndex index⟩

/-- The positions in the module of a typed contract mean what they are there for. -/
theorem denotes_generate (typed : c.Typed) : Denotes (generate debugNames c) c := by
  constructor
  · intro f hf kind named
    have imported : kind ∈ imports c := mem_imports hf (mem_blockUses_iff_reference.2 named)
    have found : (imports c)[(Layout.mk (imports c)).importIndex kind]? = some kind :=
      getElem?_idxOf? imported
    exact ⟨⟨Builtin.importModule, kind.importName, typeIndex (generate debugNames c).types
      (builtinType kind)⟩, by simp [generate, found], rfl, rfl,
      type?_builtinType debugNames c imported⟩
  · intro index f found
    have mem := List.mem_of_getElem? found
    refine ⟨by simp [generate, Layout.functionIndex],
      functionEntry ⟨imports c⟩ (generate debugNames c).types f, by simp [generate, found],
      type?_functionEntry debugNames c mem, params_functionType (typed f mem), ?_, rfl,
      references_functionCode _ f⟩
    exact Nat.add_sub_of_le (typed f mem).paramCount_le
  · exact fun e => mem_exports c

/-! ### Validity -/

/-- The module of a typed contract with different names of functions is valid. -/
theorem isValid_generate (typed : c.Typed) (names : (c.functions.map (·.name)).Nodup) :
    (generate debugNames c).isValid := by
  have sound : (generate debugNames c).funcs.all
      ((generate debugNames c).isSound (moduleTypes c)) := by
    refine List.all_eq_true.2 fun g mem => ?_
    obtain ⟨f, hf, rfl⟩ := List.mem_map.1 mem
    exact isSound_functionEntry debugNames c typed hf
  have inRange : (generate debugNames c).exports.all fun e => e.function < (moduleTypes c).length :=
    List.all_eq_true.2 fun e mem => decide_eq_true (exports_lt c ⟨imports c⟩ rfl e mem)
  have distinct : ((generate debugNames c).exports.map (·.name)).Nodup :=
    exports_nodup c ⟨imports c⟩ names
  rw [Module.isValid, functionTypes?_generate]
  simp [sound, inRange, distinct]

end

end Workbench.Codegen
