import Workbench.Proofs.Codegen.Correctness
import Workbench.Proofs.Gas.Prices
import Workbench.Proofs.Lowered.Shifts

/-!
# More optimization never costs more

A pass that may do more, on a higher level or with shifts, leaves a contract with a price that is no
higher. Literals carry the comparison: what one pass makes a literal the other makes the same
literal, so that a rewrite which is possible in one is possible in the other, or was overtaken by one
that is cheaper still. Only a shift needs something of the prices: it must not be dearer than the
multiplication that it replaces.
-/

namespace Workbench.Gas

open Source (Span)
open Lang (UnaryOp BinaryOp)
open Lowered (Expr Stmt Function Contract Context StmtsTyped)
open Lowered.Optimization
open Wasm (Instr NumOp Module)

variable {s : Schedule}

/-! ### Operators on optimized operands -/

theorem exprPrice_of_literal {e : Expr} (literal : e.literal?.isSome) : exprPrice s e = s.veryLow := by
  cases e <;> first | rfl | contradiction

/-- What is shifted by an amount costs two operators beside its operand. -/
theorem exprPrice_shl (value : Expr) (amount : Nat) (span : Span) :
    exprPrice s (.shl value amount span) = exprPrice s value + s.veryLow + s.veryLow :=
  rfl

theorem exprPrice_binary_eq (op : BinaryOp) (lhs rhs : Expr) (span : Span) :
    exprPrice s (.binary op lhs rhs span) = exprPrice s lhs + exprPrice s rhs + binaryPrice s op :=
  rfl

/-- A shift is no dearer than its multiplication. -/
theorem exprPrice_reduceStrength_le (cheap : s.veryLow ≤ s.low) (options : Options) (op : BinaryOp)
    (lhs rhs : Expr) (span : Span) :
    exprPrice s (reduceStrength options op lhs rhs span).value ≤
      exprPrice s (.binary op lhs rhs span) := by
  rcases reduceStrength_cases options op lhs rhs span with
    ⟨_, _, rfl, right, value⟩ | ⟨_, _, rfl, _, left, value⟩ | ⟨_, value⟩
  · have constant := exprPrice_of_literal (s := s) (literal_of_shiftAmount right)
    rw [value, exprPrice_shl, exprPrice_binary_eq, constant]
    exact Nat.add_le_add_left cheap _
  · have constant := exprPrice_of_literal (s := s) (literal_of_shiftAmount left)
    rw [value, exprPrice_shl, exprPrice_binary_eq, constant]
    show _ ≤ _ + _ + s.low
    omega
  · exact Nat.le_of_eq (congrArg (exprPrice s) value)

/-- Both operands of a reduced operator are paid for. -/
theorem operands_le_reduceStrength (options : Options) (op : BinaryOp) (lhs rhs : Expr)
    (span : Span) :
    exprPrice s lhs ≤ exprPrice s (reduceStrength options op lhs rhs span).value ∧
      exprPrice s rhs ≤ exprPrice s (reduceStrength options op lhs rhs span).value := by
  rcases reduceStrength_cases options op lhs rhs span with
    ⟨_, _, _, right, value⟩ | ⟨_, _, _, _, left, value⟩ | ⟨_, value⟩
  · have constant := exprPrice_of_literal (s := s) (literal_of_shiftAmount right)
    rw [value, exprPrice_shl, constant]
    omega
  · have constant := exprPrice_of_literal (s := s) (literal_of_shiftAmount left)
    rw [value, exprPrice_shl, constant]
    omega
  · rw [value, exprPrice_binary_eq]
    omega

theorem exprPrice_identity_le {op : BinaryOp} {lhs rhs e : Expr} (h : Identity op lhs rhs e) :
    exprPrice s e ≤ max (exprPrice s lhs) (exprPrice s rhs) := by
  cases h with
  | left => exact Nat.le_max_left _ _
  | right => exact Nat.le_max_right _ _
  | settled literal value =>
      rw [exprPrice_of_literal (e := e) (by simp [value]),
        exprPrice_of_literal (e := lhs) (by simp [literal])]
      exact Nat.le_max_left _ _
  | absorbLeft literal _ value =>
      rw [exprPrice_of_literal (e := e) (by simp [value]),
        exprPrice_of_literal (e := rhs) (by simp [literal])]
      exact Nat.le_max_right _ _
  | absorbRight literal _ value =>
      rw [exprPrice_of_literal (e := e) (by simp [value]),
        exprPrice_of_literal (e := lhs) (by simp [literal])]
      exact Nat.le_max_left _ _

/-- Evaluating or simplifying an operator lowers its price. -/
theorem exprPrice_binary_le (options : Options) (op : BinaryOp) (lhs rhs : Expr) (span : Span) :
    exprPrice s (binary options op lhs rhs span).value ≤
      exprPrice s (reduceStrength options op lhs rhs span).value := by
  obtain ⟨left, right⟩ := operands_le_reduceStrength (s := s) options op lhs rhs span
  rcases binary_cases options op lhs rhs span with ⟨e, found, eq⟩ | ⟨e, identity, eq⟩ | eq
  · obtain ⟨_, _, _, literal, _, value, _⟩ := fold?_spec found
    rw [eq]
    show exprPrice s e ≤ _
    rw [exprPrice_of_literal (e := e) (by simp [value])]
    rwa [exprPrice_of_literal (e := lhs) (by simp [literal])] at left
  · rw [eq]
    exact Nat.le_trans (exprPrice_identity_le identity) (Nat.max_le.2 ⟨left, right⟩)
  · exact Nat.le_of_eq (congrArg (fun x => exprPrice s x.value) eq)

theorem exprPrice_unary_le (options : Options) (op : UnaryOp) (operand : Expr) (span : Span) :
    exprPrice s (unary options op operand span).value ≤ exprPrice s (.unary op operand span) := by
  rcases unary_cases options op operand span with ⟨value, _, rfl, rfl, eq⟩ |
    ⟨value, _, rfl, rfl, eq⟩ | ⟨inner, _, rfl, rfl, eq⟩ | eq <;> rw [eq]
  · show s.veryLow ≤ s.veryLow + s.veryLow + s.veryLow
    omega
  · show s.veryLow ≤ s.veryLow + s.veryLow
    omega
  · show exprPrice s inner ≤ exprPrice s inner + s.veryLow + s.veryLow
    omega
  · exact Nat.le_refl _

theorem exprPrice_unary_mono (op : UnaryOp) {operand operand' : Expr} (span : Span)
    (le : exprPrice s operand' ≤ exprPrice s operand) :
    exprPrice s (.unary op operand' span) ≤ exprPrice s (.unary op operand span) := by
  cases op with
  | neg => exact Nat.add_le_add_right (Nat.add_le_add_right le _) _
  | not => exact Nat.add_le_add_right le _

/-! ### Expressions -/

/-- An expression can stand for another one: it costs no more, and a literal stays the same. -/
structure Cheapens (s : Schedule) (e e' : Expr) : Prop where
  price : exprPrice s e' ≤ exprPrice s e
  literal : e.literal?.isSome → e' = e

theorem Cheapens.refl (e : Expr) : Cheapens s e e :=
  ⟨Nat.le_refl _, fun _ => rfl⟩

/-- Nothing is asked of what stands for an expression that is no literal. -/
theorem Cheapens.of_price {e e' : Expr} (price : exprPrice s e' ≤ exprPrice s e)
    (computed : e.literal?.isSome = false) : Cheapens s e e' :=
  ⟨price, fun literal => absurd literal (Bool.eq_false_iff.1 computed)⟩

theorem exprsPrice_map_le {args : List Expr} {f g : Expr → Expr}
    (each : ∀ a ∈ args, exprPrice s (g a) ≤ exprPrice s (f a)) :
    exprsPrice s (args.map g) ≤ exprsPrice s (args.map f) := by
  induction args with
  | nil => exact Nat.le_refl _
  | cons a rest ih =>
      obtain ⟨first, others⟩ := List.forall_mem_cons.1 each
      exact Nat.add_le_add first (ih others)

section

variable (cheap : s.veryLow ≤ s.low)
include cheap

/-- Shifts that are put in lower the price. -/
theorem exprPrice_shifted_le (e : Expr) : exprPrice s (shifted e) ≤ exprPrice s e := by
  induction e with
  | unary op operand span ih =>
      rw [shifted_unary]
      exact exprPrice_unary_mono op span ih
  | binary op lhs rhs span ihl ihr =>
      rw [shifted_binary]
      have reduced := exprPrice_reduceStrength_le cheap ⟨0, true⟩ op (shifted lhs) (shifted rhs) span
      rw [exprPrice_binary_eq] at reduced ⊢
      omega
  | shl value amount span ih =>
      rw [shifted_shl, exprPrice_shl, exprPrice_shl]
      omega
  | call function args result span ih =>
      rw [shifted_call]
      have args := exprsPrice_map_le (f := id) ih
      rw [List.map_id] at args
      exact Nat.add_le_add_right args _
  | builtin kind args span ih =>
      rw [shifted_builtin]
      have args := exprsPrice_map_le (f := id) ih
      rw [List.map_id] at args
      exact Nat.add_le_add_right args _
  | _ => exact Nat.le_refl _

theorem cheapens_shifted (e : Expr) : Cheapens s e (shifted e) :=
  ⟨exprPrice_shifted_le cheap e, shifted_of_literal⟩

variable {o o' : Options} (reduces : o.strengthReduction → o'.strengthReduction)
include reduces

/-- A shift on cheaper operands, or one that only the second pass may make. -/
theorem reduceStrength_mono (op : BinaryOp) {lhs lhs' rhs rhs' : Expr} (span : Span)
    (left : Cheapens s lhs lhs') (right : Cheapens s rhs rhs') :
    exprPrice s (reduceStrength o' op lhs' rhs' span).value ≤
      exprPrice s (reduceStrength o op lhs rhs span).value := by
  have whole := exprPrice_reduceStrength_le cheap o' op lhs' rhs' span
  have hl := left.price
  have hr := right.price
  rcases reduceStrength_cases o op lhs rhs span with
    ⟨amount, enabled, mul, shifts, value⟩ | ⟨amount, enabled, mul, stays, shifts, value⟩ | ⟨_, value⟩
  · have same := right.literal (literal_of_shiftAmount shifts)
    rw [same, value, exprPrice_shl]
    rcases reduceStrength_cases o' op lhs' rhs span with
      ⟨_, _, _, _, value'⟩ | ⟨_, _, _, stays', _⟩ | ⟨stays', _⟩
    · rw [value', exprPrice_shl]
      omega
    · simp [shifts] at stays'
    · simp [reduces enabled, mul, shifts] at stays'
  · have same := left.literal (literal_of_shiftAmount shifts)
    have constant := exprPrice_of_literal (s := s) (literal_of_shiftAmount shifts)
    rw [same, value, exprPrice_shl]
    rcases reduceStrength_cases o' op lhs rhs' span with
      ⟨_, _, _, shifts', value'⟩ | ⟨_, _, _, _, _, value'⟩ | ⟨stays', _⟩
    · have constant' := exprPrice_of_literal (s := s) (literal_of_shiftAmount shifts')
      rw [value', exprPrice_shl]
      omega
    · rw [value', exprPrice_shl]
      omega
    · simp [reduces enabled, mul, shifts] at stays'
  · rw [value]
    rw [exprPrice_binary_eq] at whole ⊢
    omega

/-- Below level 2, a pass does no more to an operator than to evaluate it. -/
theorem binary_cheapens (small : o.level < 2) (level : o.level ≤ o'.level) (op : BinaryOp)
    {lhs lhs' rhs rhs' : Expr} (span : Span) (left : Cheapens s lhs lhs')
    (right : Cheapens s rhs rhs') :
    Cheapens s (binary o op lhs rhs span).value (binary o' op lhs' rhs' span).value := by
  have two : ¬ 2 ≤ o.level := by omega
  cases folds : (if 1 ≤ o.level then fold? op lhs rhs span else none) with
  | some e =>
      have one : 1 ≤ o.level := by
        by_cases one : 1 ≤ o.level
        · exact one
        · simp [one] at folds
      have one' : 1 ≤ o'.level := by omega
      rw [if_pos one] at folds
      obtain ⟨_, _, _, literall, literalr, _⟩ := fold?_spec folds
      have samel := left.literal (by simp [literall])
      have samer := right.literal (by simp [literalr])
      have same : (binary o' op lhs' rhs' span).value = (binary o op lhs rhs span).value := by
        simp only [binary, one, one', if_true, samel, samer, folds]
      rw [same]
      exact .refl _
  | none =>
      have plain : (binary o op lhs rhs span).value = (reduceStrength o op lhs rhs span).value := by
        simp only [binary, folds, two, if_false]
      rw [plain]
      constructor
      · exact Nat.le_trans (exprPrice_binary_le o' op lhs' rhs' span)
          (reduceStrength_mono cheap reduces op span left right)
      · intro literal
        rw [literal?_reduceStrength] at literal
        contradiction

omit cheap reduces in
theorem unary_cheapens (small : o.level < 2) (level : o.level ≤ o'.level) (op : UnaryOp)
    {operand operand' : Expr} (span : Span) (h : Cheapens s operand operand') :
    Cheapens s (unary o op operand span).value (unary o' op operand' span).value := by
  have two : ¬ 2 ≤ o.level := by omega
  by_cases evaluated : operand.literal?.isSome ∧ 1 ≤ o.level
  · obtain ⟨literal, one⟩ := evaluated
    have one' : 1 ≤ o'.level := by omega
    rw [h.literal literal]
    have same : (unary o' op operand span).value = (unary o op operand span).value := by
      cases operand <;> cases op <;> first | contradiction | simp [unary, one, one']
    rw [same]
    exact .refl _
  · have plain : (unary o op operand span).value = .unary op operand span := by
      unfold unary
      dsimp only
      split
      · exact congrArg _ (if_neg fun one => evaluated ⟨rfl, one⟩)
      · exact congrArg _ (if_neg fun one => evaluated ⟨rfl, one⟩)
      · exact congrArg _ (if_neg two)
      · rfl
    rw [plain]
    refine .of_price ?_ rfl
    exact Nat.le_trans (exprPrice_unary_le o' op operand' span)
      (exprPrice_unary_mono op span h.price)

theorem expr_cheapens_of_lt (small : o.level < 2) (level : o.level ≤ o'.level) (e : Expr) :
    Cheapens s (expr o e).value (expr o' e).value := by
  induction e with
  | unary op operand span ih =>
      rw [value_unary, value_unary]
      exact unary_cheapens small level op span ih
  | binary op lhs rhs span ihl ihr =>
      rw [value_binary, value_binary]
      exact binary_cheapens cheap reduces small level op span ihl ihr
  | shl value amount span ih =>
      rw [value_shl, value_shl]
      refine .of_price ?_ rfl
      have price := ih.price
      rw [exprPrice_shl, exprPrice_shl]
      omega
  | call function args result span ih =>
      rw [value_call, value_call]
      have args := exprsPrice_map_le fun a mem => (ih a mem).price
      exact .of_price (Nat.add_le_add_right args _) rfl
  | builtin kind args span ih =>
      rw [value_builtin, value_builtin]
      have args := exprsPrice_map_le fun a mem => (ih a mem).price
      exact .of_price (Nat.add_le_add_right args _) rfl
  | _ => exact .refl _

/-- The pass that may do more leaves the cheaper expression. -/
theorem expr_cheapens (level : o.level ≤ o'.level) (e : Expr) :
    Cheapens s (expr o e).value (expr o' e).value := by
  by_cases small : o.level < 2
  · exact expr_cheapens_of_lt cheap reduces small level e
  · obtain ⟨l, f⟩ := o
    obtain ⟨l', f'⟩ := o'
    have high : 2 ≤ l := Nat.le_of_not_lt small
    have same := expr_of_two_le (Nat.le_trans high level) high f' e
    rw [same]
    cases f with
    | true =>
        have same : f' = true := reduces rfl
        rw [same]
        exact .refl _
    | false =>
        cases f' with
        | false => exact .refl _
        | true =>
            rw [expr_shifted]
            exact cheapens_shifted cheap _

end

/-! ### Statements -/

theorem blockPrice_append (first rest : List Stmt) :
    blockPrice s (first ++ rest) = blockPrice s first + blockPrice s rest := by
  induction first with
  | nil => simp [blockPrice]
  | cons st first ih => simp [blockPrice, ih, Nat.add_assoc]

theorem blockPrice_cutUnreachable_le (body : List Stmt) :
    blockPrice s (cutUnreachable body) ≤ blockPrice s body := by
  induction body with
  | nil => exact Nat.le_refl _
  | cons st rest ih =>
      rw [cutUnreachable]
      split
      · exact Nat.add_le_add_left (Nat.zero_le _) _
      · exact Nat.add_le_add_left ih _

/-- Behind a part that control never passes, everything is cut. -/
theorem cutUnreachable_append (first rest : List Stmt) :
    cutUnreachable (first ++ rest) =
      if Stmt.anyDiverges first then cutUnreachable first else first ++ cutUnreachable rest := by
  induction first with
  | nil => rfl
  | cons st first ih =>
      by_cases diverges : st.diverges
      · simp [cutUnreachable, Stmt.anyDiverges, diverges]
      · simp only [List.cons_append, cutUnreachable, Stmt.anyDiverges, diverges, ih,
          Bool.false_or, Bool.false_eq_true, if_false]
        split <;> rfl

theorem finishBlock_eq_nil_iff {o : Options} {body : List Stmt} :
    (finishBlock o body).value = [] ↔ body = [] := by
  have cut : cutUnreachable body = [] ↔ body = [] := by
    cases body with
    | nil => rfl
    | cons st rest =>
        rw [cutUnreachable]
        split <;> simp
  rw [finishBlock]
  split
  · exact cut
  · rfl

/-- Statements can stand for others behind two passes: they cost no more, nothing is left if nothing
was, and where the first pass cuts, control does not pass them either. -/
structure CheapensBlock (s : Schedule) (o : Options) (body body' : List Stmt) : Prop where
  price : blockPrice s body' ≤ blockPrice s body
  empty : body = [] → body' = []
  diverges : 3 ≤ o.level → Stmt.anyDiverges body → Stmt.anyDiverges body'

theorem CheapensBlock.refl {o : Options} (body : List Stmt) : CheapensBlock s o body body :=
  ⟨Nat.le_refl _, id, fun _ => id⟩

/-- Anything for one statement. -/
theorem CheapensBlock.of_stmt {o : Options} {st : Stmt} {body' : List Stmt}
    (price : blockPrice s body' ≤ stmtPrice s st)
    (diverges : 3 ≤ o.level → st.diverges → Stmt.anyDiverges body') :
    CheapensBlock s o [st] body' := by
  refine ⟨price, fun none => absurd none (List.cons_ne_nil _ _), fun cuts passed => ?_⟩
  rw [Stmt.anyDiverges, Stmt.anyDiverges, Bool.or_false] at passed
  exact diverges cuts passed

/-- One statement for another. -/
theorem CheapensBlock.single {o : Options} {st st' : Stmt}
    (price : stmtPrice s st' ≤ stmtPrice s st) (diverges : st.diverges → st'.diverges) :
    CheapensBlock s o [st] [st'] := by
  refine .of_stmt price fun _ passed => ?_
  rw [Stmt.anyDiverges, diverges passed, Bool.true_or]

/-- Nothing for a statement that control can pass. -/
theorem CheapensBlock.removed {o : Options} {st : Stmt} (passes : st.diverges = false) :
    CheapensBlock s o [st] [] :=
  .of_stmt (Nat.zero_le _) fun _ passed => absurd passed (Bool.eq_false_iff.1 passes)

theorem blockPrice_le_alternative (body : List Stmt) :
    blockPrice s body ≤ if body.isEmpty then 0 else s.zero + blockPrice s body := by
  cases body with
  | nil => exact Nat.le_refl _
  | cons st rest => exact Nat.le_add_left _ _

/-- An alternative is marked only if something is left of it. -/
theorem CheapensBlock.alternative {o : Options} {body body' : List Stmt}
    (h : CheapensBlock s o body body') :
    (if body'.isEmpty then 0 else s.zero + blockPrice s body') ≤
      if body.isEmpty then 0 else s.zero + blockPrice s body := by
  by_cases empty : body = []
  · have empty' := h.empty empty
    simp [empty, empty']
  · have price := h.price
    rw [if_neg (c := body.isEmpty) (by simpa using empty)]
    split
    · exact Nat.zero_le _
    · omega

/-- What a pass makes of a single statement has nothing that could be cut. -/
theorem cutUnreachable_stmt {o : Options} (cuts : 3 ≤ o.level) (st : Stmt) :
    cutUnreachable (stmt o st).value = (stmt o st).value := by
  have block (body : List Stmt) : cutUnreachable (block o body).value = (block o body).value := by
    rw [value_block, finishBlock, if_pos cuts]
    exact cutUnreachable_idem _
  have single (st : Stmt) : cutUnreachable [st] = [st] := by
    rw [cutUnreachable, cutUnreachable]
    split <;> rfl
  cases st with
  | letIn index value span => rw [value_letIn, single]
  | set index value span => rw [value_set, single]
  | store slot value span => rw [value_store, single]
  | eval value span => rw [value_eval, single]
  | returns value span => rw [value_returns, single]
  | require cond span =>
      rw [value_require]
      split
      · rfl
      · exact single _
  | ifThen cond yes no span =>
      rw [value_ifThen]
      split
      · exact block yes
      · split
        · exact block no
        · exact single _
  | whileDo cond body span =>
      rw [value_whileDo]
      split
      · rfl
      · exact single _

section

variable {Γ : Context} {o o' : Options}

theorem stmts_cheapen_of_forall {body : List Stmt}
    (each : ∀ st ∈ body, ∀ live, st.Typed Γ live →
      CheapensBlock s o (stmt o st).value (stmt o' st).value) {live : List Nat}
    (typed : StmtsTyped Γ live body) :
    CheapensBlock s o (stmts o body).value (stmts o' body).value := by
  induction body generalizing live with
  | nil =>
      rw [value_stmts_nil, value_stmts_nil]
      exact ⟨Nat.le_refl _, id, fun _ => id⟩
  | cons st rest ih =>
      obtain ⟨first, others⟩ := List.forall_mem_cons.1 each
      have first := first live typed.1
      have rest := ih others typed.2
      rw [value_stmts_cons, value_stmts_cons]
      constructor
      · rw [blockPrice_append, blockPrice_append]
        exact Nat.add_le_add first.price rest.price
      · intro none
        obtain ⟨noFirst, noRest⟩ := List.append_eq_nil_iff.1 none
        rw [first.empty noFirst, rest.empty noRest]
        rfl
      · intro cuts diverges
        rw [anyDiverges_append, Bool.or_eq_true] at diverges ⊢
        exact diverges.imp (first.diverges cuts) (rest.diverges cuts)

/-- Where both passes cut, what they keep compares as well. -/
theorem cutStmts_price_le_of_forall (cuts : 3 ≤ o.level) {body : List Stmt}
    (each : ∀ st ∈ body, ∀ live, st.Typed Γ live →
      CheapensBlock s o (stmt o st).value (stmt o' st).value) {live : List Nat}
    (typed : StmtsTyped Γ live body) :
    blockPrice s (cutUnreachable (stmts o' body).value) ≤
      blockPrice s (cutUnreachable (stmts o body).value) := by
  induction body generalizing live with
  | nil => exact Nat.le_of_eq (by rw [value_stmts_nil, value_stmts_nil])
  | cons st rest ih =>
      obtain ⟨first, others⟩ := List.forall_mem_cons.1 each
      have first := first live typed.1
      have rest := ih others typed.2
      have short := blockPrice_cutUnreachable_le (s := s) (stmt o' st).value
      have price := first.price
      rw [value_stmts_cons, value_stmts_cons, cutUnreachable_append, cutUnreachable_append,
        cutUnreachable_stmt cuts]
      by_cases diverges : Stmt.anyDiverges (stmt o st).value
      · rw [if_pos diverges, if_pos (first.diverges cuts diverges)]
        omega
      · rw [if_neg diverges, blockPrice_append]
        split
        · omega
        · rw [blockPrice_append]
          omega

theorem block_cheapens_of_forall (level : o.level ≤ o'.level) {body : List Stmt}
    (each : ∀ st ∈ body, ∀ live, st.Typed Γ live →
      CheapensBlock s o (stmt o st).value (stmt o' st).value) {live : List Nat}
    (typed : StmtsTyped Γ live body) :
    CheapensBlock s o (block o body).value (block o' body).value := by
  have whole := stmts_cheapen_of_forall each typed
  rw [value_block, value_block]
  constructor
  · by_cases cuts : 3 ≤ o.level
    · have cuts' : 3 ≤ o'.level := by omega
      rw [finishBlock, finishBlock, if_pos cuts, if_pos cuts']
      exact cutStmts_price_le_of_forall cuts each typed
    · rw [finishBlock, finishBlock, if_neg cuts]
      split
      · exact Nat.le_trans (blockPrice_cutUnreachable_le _) whole.price
      · exact whole.price
  · rw [finishBlock_eq_nil_iff, finishBlock_eq_nil_iff]
    exact whole.empty
  · intro cuts
    rw [anyDiverges_finishBlock, anyDiverges_finishBlock]
    exact whole.diverges cuts

variable (cheap : s.veryLow ≤ s.low) (reduces : o.strengthReduction → o'.strengthReduction)
  (level : o.level ≤ o'.level)
include cheap reduces level

/-- A condition that one pass decides is decided by the other in the same way. -/
theorem decided_mono {value : Bool} {cond : Expr}
    (decided : 2 ≤ o.level && isBool value (expr o cond).value) :
    2 ≤ o'.level && isBool value (expr o' cond).value := by
  obtain ⟨two, is⟩ := Bool.and_eq_true_iff.1 decided
  have two : 2 ≤ o.level := of_decide_eq_true two
  have two' : 2 ≤ o'.level := by omega
  have same := (expr_cheapens (s := s) cheap reduces level cond).literal
    (by simp [literal?_of_isBool is])
  rw [same, is, decide_eq_true two']
  rfl

theorem require_cheapens (cond : Expr) (span : Span) :
    CheapensBlock s o (stmt o (.require cond span)).value (stmt o' (.require cond span)).value := by
  have price := (expr_cheapens (s := s) cheap reduces level cond).price
  rw [value_require, value_require]
  by_cases decided : 2 ≤ o.level && isBool true (expr o cond).value
  · rw [if_pos decided, if_pos (decided_mono cheap reduces level decided)]
    exact .refl _
  · rw [if_neg decided]
    split
    · exact .removed rfl
    · refine .single ?_ id
      simp only [stmtPrice]
      omega

omit cheap reduces level in
theorem isBool_true_of_false {e : Expr} (h : isBool false e) : isBool true e = false := by
  cases e <;> simp_all [isBool]

omit cheap reduces level in
/-- The literal truth is not decided to be false. -/
theorem isBool_of_isTrue {e : Expr} (truth : e.isTrue) :
    e.literal?.isSome ∧ isBool false e = false := by
  unfold Expr.isTrue at truth
  split at truth
  · exact ⟨rfl, rfl⟩
  · contradiction

theorem whileDo_cheapens (cond : Expr) {body : List Stmt} (span : Span)
    (inside : CheapensBlock s o (block o body).value (block o' body).value) :
    CheapensBlock s o (stmt o (.whileDo cond body span)).value
      (stmt o' (.whileDo cond body span)).value := by
  have condition := expr_cheapens (s := s) cheap reduces level cond
  have price := condition.price
  have price' := inside.price
  rw [value_whileDo, value_whileDo]
  by_cases decided : 2 ≤ o.level && isBool false (expr o cond).value
  · rw [if_pos decided, if_pos (decided_mono cheap reduces level decided)]
    exact .refl _
  · rw [if_neg decided]
    by_cases endless : (expr o cond).value.isTrue
    · obtain ⟨literal, runs⟩ := isBool_of_isTrue endless
      have same := condition.literal literal
      rw [same, runs, Bool.and_false, if_neg Bool.false_ne_true]
      refine .single ?_ id
      simp only [stmtPrice]
      omega
    · split
      · exact .removed (Bool.eq_false_iff.2 endless)
      · refine .single ?_ fun truth => absurd truth endless
        simp only [stmtPrice]
        omega

theorem ifThen_cheapens (cond : Expr) {yes no : List Stmt} (span : Span)
    (onYes : CheapensBlock s o (block o yes).value (block o' yes).value)
    (onNo : CheapensBlock s o (block o no).value (block o' no).value) :
    CheapensBlock s o (stmt o (.ifThen cond yes no span)).value
      (stmt o' (.ifThen cond yes no span)).value := by
  have condition := expr_cheapens (s := s) cheap reduces level cond
  have price := condition.price
  have yesPrice := onYes.price
  have noPrice := onNo.price
  have alternative := onNo.alternative
  have within := blockPrice_le_alternative (s := s) (block o' no).value
  rw [value_ifThen, value_ifThen]
  by_cases holds : 2 ≤ o.level && isBool true (expr o cond).value
  · rw [if_pos holds, if_pos (decided_mono cheap reduces level holds)]
    exact onYes
  · rw [if_neg holds]
    by_cases fails : 2 ≤ o.level && isBool false (expr o cond).value
    · have fails' := decided_mono cheap reduces level fails
      have false := (Bool.and_eq_true_iff.1 fails').2
      rw [if_pos fails, isBool_true_of_false false, Bool.and_false, if_neg Bool.false_ne_true,
        if_pos fails']
      exact onNo
    · rw [if_neg fails]
      split
      · refine .of_stmt ?_ fun cuts diverges => ?_
        · simp only [stmtPrice]
          omega
        · exact onYes.diverges cuts (Bool.and_eq_true_iff.1 diverges).1
      · split
        · refine .of_stmt ?_ fun cuts diverges => ?_
          · simp only [stmtPrice]
            omega
          · exact onNo.diverges cuts (Bool.and_eq_true_iff.1 diverges).2
        · refine .of_stmt ?_ fun cuts diverges => ?_
          · simp only [blockPrice, stmtPrice]
            omega
          · obtain ⟨ends, ends'⟩ := Bool.and_eq_true_iff.1 diverges
            have both := Bool.and_eq_true_iff.2 ⟨onYes.diverges cuts ends, onNo.diverges cuts ends'⟩
            rwa [Stmt.anyDiverges, Stmt.anyDiverges, Bool.or_false]

/-- The pass that may do more leaves cheaper statements. -/
theorem stmt_cheapens {st : Stmt} : ∀ live, st.Typed Γ live →
    CheapensBlock s o (stmt o st).value (stmt o' st).value := by
  have expr_le (e : Expr) := (expr_cheapens (s := s) cheap reduces level e).price
  induction st with
  | letIn index value span =>
      intro live typed
      rw [value_letIn, value_letIn]
      exact .single (Nat.add_le_add_right (expr_le value) _) id
  | set index value span =>
      intro live typed
      rw [value_set, value_set]
      exact .single (Nat.add_le_add_right (expr_le value) _) id
  | store slot value span =>
      intro live typed
      rw [value_store, value_store]
      exact .single (Nat.add_le_add_right (Nat.add_le_add_right (expr_le value) _) _) id
  | ifThen cond yes no span ihy ihn =>
      intro live typed
      exact ifThen_cheapens cheap reduces level cond span
        (block_cheapens_of_forall level ihy typed.2.1) (block_cheapens_of_forall level ihn typed.2.2)
  | whileDo cond body span ih =>
      intro live typed
      exact whileDo_cheapens cheap reduces level cond span
        (block_cheapens_of_forall level ih typed.2)
  | returns value span =>
      intro live typed
      rw [value_returns, value_returns]
      cases value with
      | none => exact .single (Nat.le_refl _) id
      | some value => exact .single (Nat.add_le_add_right (expr_le value) _) id
  | require cond span => exact fun live typed => require_cheapens cheap reduces level cond span
  | eval value span =>
      intro live typed
      have type := (expr_typed o typed).2
      have type' := (expr_typed o' typed).2
      rw [value_eval, value_eval]
      refine .single ?_ id
      simp only [stmtPrice, type, type']
      exact Nat.add_le_add_right (expr_le value) _

theorem functionPrice_mono {c : Contract} {f : Function} (typed : c.TypedFunction f) :
    functionPrice s (function o' f) ≤ functionPrice s (function o f) := by
  have body := block_cheapens_of_forall level
    (fun _ _ => stmt_cheapens (s := s) cheap reduces level) typed.body
  exact Nat.add_le_add_right (Nat.add_le_add_right body.price _) _

theorem functionsPrice_mono {c : Contract} {functions : List Function}
    (typed : ∀ f ∈ functions, c.TypedFunction f) :
    functionsPrice s (functions.map (function o')) ≤ functionsPrice s (functions.map (function o)) := by
  induction functions with
  | nil => exact Nat.le_refl _
  | cons f rest ih =>
      obtain ⟨first, others⟩ := List.forall_mem_cons.1 typed
      exact Nat.add_le_add (functionPrice_mono cheap reduces level first) (ih others)

/-- The pass that may do more leaves the cheaper contract. -/
theorem contractPrice_mono {c : Contract} (typed : c.Typed) :
    contractPrice s (c.optimize o').value ≤ contractPrice s (c.optimize o).value := by
  rw [contractPrice, contractPrice, Contract.optimize_functions, Contract.optimize_functions]
  exact functionsPrice_mono cheap reduces level typed

end

/-! ### Modules -/

/-- More optimization never costs more gas. A module is generated from an accepted contract behind
one pass, and another behind a pass on at least its level that makes shifts if the first one does.
Each has an estimate exactly if it fits its format, and that of the second is no higher. -/
theorem estimate_optimize_mono {source : Syntax.Contract} (accepted : Check.Accepts source)
    (s : Schedule) (cheap : s.veryLow ≤ s.low) (o o' : Options) (level : o.level ≤ o'.level)
    (reduces : o.strengthReduction → o'.strengthReduction) (debugNames debugNames' : Bool) :
    let m := Codegen.generate debugNames ((Check.analyze source).contract.optimize o).value
    let m' := Codegen.generate debugNames' ((Check.analyze source).contract.optimize o').value
    ((estimate? s m.encode).isSome ↔ m.Fits) ∧ ((estimate? s m'.encode).isSome ↔ m'.Fits) ∧
      ∀ gas gas', estimate? s m.encode = some gas → estimate? s m'.encode = some gas' →
        gas' ≤ gas := by
  intro m m'
  have estimate := estimate?_generate s debugNames ((Check.analyze source).contract.optimize o).value
  have estimate' :=
    estimate?_generate s debugNames' ((Check.analyze source).contract.optimize o').value
  refine ⟨estimate.isSome_iff, estimate'.isSome_iff, fun gas gas' known known' => ?_⟩
  have value := estimate.eq_of_some known
  have value' := estimate'.eq_of_some known'
  have price := contractPrice_mono (s := s) cheap reduces level accepted.typed
  omega

/-- A contract with a function that doubles a number. -/
def doubling : Syntax.Contract :=
  let span : Source.Span := ⟨0, 0⟩
  let name (text : String) : Syntax.Name := ⟨text, span⟩
  let product : Syntax.Expr := .binary .mul (.name "x" span) (.int 2 span) span
  { name := name "Doubling"
    storage := []
    functions :=
      [{ name := name "double"
         params := [⟨name "x", .i32⟩]
         result := some .i32
         isPublic := false
         isView := true
         body := .mk [.returns (some product) span] span
         span }]
    span }

theorem accepts_doubling : Check.Accepts doubling :=
  (Check.accepts_iff doubling).2 rfl

/-- The lowered form of the contract with a given result in place of the product. -/
def returning (value : Expr) : Contract :=
  let span : Source.Span := ⟨0, 0⟩
  ⟨"Doubling", [], [⟨"double", 1, .i32, [⟨"x", .i32⟩], [.returns (some value) span], false, true,
    span⟩], span⟩

theorem optimize_returning (o : Options) (value : Expr) :
    ((returning value).optimize o).value = returning (expr o value).value := by
  have body : (block o [.returns (some value) ⟨0, 0⟩]).value =
      [.returns (some (expr o value).value) ⟨0, 0⟩] := by
    rw [value_block, value_stmts_cons, value_returns, value_stmts_nil, finishBlock]
    split <;> rfl
  show Contract.mk _ _ (functions o _).value _ = _
  rw [functions_value]
  simp only [returning, List.map_cons, List.map_nil, function, body]

/-- The module of a function that takes a word and returns an operator on it and a constant. -/
def operating (w : Lang.Word) (op : NumOp) : Module :=
  ⟨[⟨1, 1⟩], [], [⟨0, 0, [.localGet 0, .const w, .num op, .ret, .unreachable]⟩], [], none, []⟩

theorem fits_operating {w : Lang.Word} (op : NumOp) (small : -64 ≤ w.toInt ∧ w.toInt < 64) :
    (operating w op).Fits := by
  constructor
  · intro s mem
    simp only [operating, Module.sections, Module.coreSections, Module.allCustoms, Option.map_none,
      Option.toList_none, List.append_nil, List.map_nil, List.isEmpty_nil, if_true, List.nil_append,
      List.mem_cons, List.not_mem_nil, or_false] at mem
    rcases mem with rfl | rfl | rfl | rfl <;>
      simp [Wasm.encodeVector, Wasm.FuncType.encode, Wasm.Func.encode, Wasm.encodeSized,
        Wasm.encodeInstrs, Wasm.Instr.encode, Wasm.Leb128.unsigned_of_lt,
        Wasm.Leb128.word_of_small small, Wasm.indexLimit]
  · exact fun c mem => absurd mem List.not_mem_nil
  · exact fun i mem => absurd mem List.not_mem_nil
  · intro f mem
    rw [List.mem_singleton.1 mem]
    simp [Wasm.AllFit, Wasm.Func.numbers, Wasm.numbersOf, Wasm.Instr.numbers, Wasm.indexLimit]

/-- A function that doubles costs 13 by a multiplication and 11 by a shift. -/
theorem estimate_optimize_mono_doubling :
    let module (o : Options) :=
      Codegen.generate false ((Check.analyze doubling).contract.optimize o).value
    Check.Accepts doubling ∧ Schedule.standard.veryLow ≤ Schedule.standard.low ∧
      estimate? .standard (module ⟨0, false⟩).encode = some 13 ∧
      estimate? .standard (module ⟨3, true⟩).encode = some 11 ∧ 11 ≤ 13 := by
  intro module
  have lowered : (Check.analyze doubling).contract =
      returning (.binary .mul (.var 0 .i32 ⟨0, 0⟩) (.int 2 ⟨0, 0⟩) ⟨0, 0⟩) := rfl
  have plain : module ⟨0, false⟩ = operating 2 .mul := by
    show Codegen.generate false _ = _
    rw [lowered, optimize_returning, value_binary]
    rfl
  have reduced : module ⟨3, true⟩ = operating 1 .shl := by
    show Codegen.generate false _ = _
    rw [lowered, optimize_returning, value_binary]
    rfl
  have first : estimate? .standard (module ⟨0, false⟩).encode = some 13 := by
    rw [plain]
    exact (estimate?_encode .standard (operating 2 .mul)).gives (fits_operating .mul (by decide))
  have second : estimate? .standard (module ⟨3, true⟩).encode = some 11 := by
    rw [reduced]
    exact (estimate?_encode .standard (operating 1 .shl)).gives (fits_operating .shl (by decide))
  have cheap : Schedule.standard.veryLow ≤ Schedule.standard.low := by decide
  obtain ⟨-, -, mono⟩ := estimate_optimize_mono accepts_doubling .standard cheap ⟨0, false⟩ ⟨3, true⟩
    (by decide) (by decide) false false
  exact ⟨accepts_doubling, cheap, first, second, mono 13 11 first second⟩

end Workbench.Gas
