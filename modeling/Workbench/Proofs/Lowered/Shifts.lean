import Workbench.Proofs.Lowered.OptimizationTyping

/-!
# Shifts come last

Whether multiplications become shifts does not change what else a pass does to an expression:
passing over it with shifts comes to the same as passing over it without them and putting the shifts
in afterwards. For the other rewrites a shift looks as the multiplication that it stands for.
-/

namespace Workbench.Lowered.Optimization

open Source (Span)
open Lang (Ty UnaryOp BinaryOp Builtin Word)

/-! ### Equations of the pass over expressions -/

section

attribute [local simp] expr exprs

theorem value_unary (options : Options) (op : UnaryOp) (operand : Expr) (span : Span) :
    (expr options (.unary op operand span)).value =
      (unary options op (expr options operand).value span).value := by
  simp

theorem value_binary (options : Options) (op : BinaryOp) (lhs rhs : Expr) (span : Span) :
    (expr options (.binary op lhs rhs span)).value =
      (binary options op (expr options lhs).value (expr options rhs).value span).value := by
  simp

theorem value_shl (options : Options) (value : Expr) (amount : Nat) (span : Span) :
    (expr options (.shl value amount span)).value = .shl (expr options value).value amount span := by
  simp

theorem value_exprs (options : Options) (args : List Expr) :
    (exprs options args).value = args.map fun a => (expr options a).value := by
  induction args with
  | nil => rfl
  | cons a rest ih =>
      simp [ih]

theorem value_call (options : Options) (function : Nat) (args : List Expr) (result : Ty)
    (span : Span) :
    (expr options (.call function args result span)).value =
      .call function (args.map fun a => (expr options a).value) result span := by
  simp [value_exprs]

theorem value_builtin (options : Options) (kind : Builtin) (args : List Expr) (span : Span) :
    (expr options (.builtin kind args span)).value =
      .builtin kind (args.map fun a => (expr options a).value) span := by
  simp [value_exprs]

end

/-! ### Reduced operators -/

theorem literal?_reduceStrength (options : Options) (op : BinaryOp) (lhs rhs : Expr) (span : Span) :
    (reduceStrength options op lhs rhs span).value.literal? = none := by
  rcases reduceStrength_cases options op lhs rhs span with
    ⟨_, _, _, _, value⟩ | ⟨_, _, _, _, _, value⟩ | ⟨_, value⟩ <;> rw [value] <;> rfl

theorem isPure_of_literal {e : Expr} (literal : e.literal?.isSome) : e.isPure := by
  cases e <;> first | rfl | contradiction

theorem literal_of_shiftAmount {e : Expr} {amount : Nat} (h : shiftAmount? e = some amount) :
    e.literal?.isSome := by
  obtain ⟨-, w, literal, -⟩ := shiftAmount?_spec h
  simp [literal]

theorem isPure_reduceStrength (options : Options) (op : BinaryOp) (lhs rhs : Expr) (span : Span) :
    (reduceStrength options op lhs rhs span).value.isPure =
      (Expr.binary op lhs rhs span).isPure := by
  rcases reduceStrength_cases options op lhs rhs span with
    ⟨_, _, mul, right, value⟩ | ⟨_, _, mul, _, left, value⟩ | ⟨_, value⟩
  · have pure := isPure_of_literal (literal_of_shiftAmount right)
    rw [value, mul]
    simp [Expr.isPure, pure]
  · have pure := isPure_of_literal (literal_of_shiftAmount left)
    rw [value, mul]
    simp [Expr.isPure, pure]
  · rw [value]

/-! ### Expressions with shifts -/

/-- An expression with the shifts put in and nothing else changed. -/
def shifted (e : Expr) : Expr :=
  (expr ⟨0, true⟩ e).value

theorem shifted_unary (op : UnaryOp) (operand : Expr) (span : Span) :
    shifted (.unary op operand span) = .unary op (shifted operand) span := by
  rw [shifted, value_unary]
  show (unary ⟨0, true⟩ op (shifted operand) span).value = _
  unfold unary
  split <;> rfl

theorem shifted_binary (op : BinaryOp) (lhs rhs : Expr) (span : Span) :
    shifted (.binary op lhs rhs span) =
      (reduceStrength ⟨0, true⟩ op (shifted lhs) (shifted rhs) span).value := by
  rw [shifted, value_binary]
  rfl

theorem shifted_shl (value : Expr) (amount : Nat) (span : Span) :
    shifted (.shl value amount span) = .shl (shifted value) amount span :=
  value_shl _ value amount span

theorem shifted_call (function : Nat) (args : List Expr) (result : Ty) (span : Span) :
    shifted (.call function args result span) = .call function (args.map shifted) result span :=
  value_call _ function args result span

theorem shifted_builtin (kind : Builtin) (args : List Expr) (span : Span) :
    shifted (.builtin kind args span) = .builtin kind (args.map shifted) span :=
  value_builtin _ kind args span

theorem shifted_of_literal {e : Expr} (literal : e.literal?.isSome) : shifted e = e := by
  cases e <;> first | rfl | contradiction

theorem literal?_shifted (e : Expr) : (shifted e).literal? = e.literal? := by
  cases e with
  | unary op operand span => rw [shifted_unary]; rfl
  | binary op lhs rhs span => rw [shifted_binary, literal?_reduceStrength]; rfl
  | shl value amount span => rw [shifted_shl]; rfl
  | call function args result span => rw [shifted_call]; rfl
  | builtin kind args span => rw [shifted_builtin]; rfl
  | _ => rfl

/-- What only looks at literals does not see the shifts. -/
theorem eq_of_shifted {α : Type} {look : Expr → α} (none : α)
    (blind : ∀ e : Expr, e.literal? = .none → look e = none) (e : Expr) :
    look (shifted e) = look e := by
  cases literal : e.literal? with
  | none => rw [blind e literal, blind (shifted e) ((literal?_shifted e).trans literal)]
  | some w => rw [shifted_of_literal (by simp [literal])]

theorem isInt_shifted (value : Word) (e : Expr) : isInt value (shifted e) = isInt value e :=
  eq_of_shifted false (fun e h => by cases e <;> first | rfl | contradiction) e

theorem isBool_shifted (value : Bool) (e : Expr) : isBool value (shifted e) = isBool value e :=
  eq_of_shifted false (fun e h => by cases e <;> first | rfl | contradiction) e

theorem isPure_shifted (e : Expr) : (shifted e).isPure = e.isPure := by
  induction e with
  | unary op operand span ih => rw [shifted_unary, Expr.isPure, ih, Expr.isPure]
  | binary op lhs rhs span ihl ihr =>
      rw [shifted_binary, isPure_reduceStrength, Expr.isPure, ihl, ihr, Expr.isPure]
  | shl value amount span ih =>
      rw [shifted_shl]
      exact ih
  | call function args result span => rw [shifted_call]; rfl
  | builtin kind args span => rw [shifted_builtin]; rfl
  | _ => rfl

theorem fold?_of_literal_none {op : BinaryOp} {lhs rhs : Expr} {span : Span}
    (h : lhs.literal? = none ∨ rhs.literal? = none) : fold? op lhs rhs span = none := by
  cases found : fold? op lhs rhs span with
  | none => rfl
  | some e =>
      obtain ⟨a, b, _, left, right, -⟩ := fold?_spec found
      simp [left, right] at h

theorem fold?_shifted (op : BinaryOp) (lhs rhs : Expr) (span : Span) :
    fold? op (shifted lhs) (shifted rhs) span = fold? op lhs rhs span := by
  have left : ∀ e : Expr, e.literal? = none → fold? op e (shifted rhs) span = none :=
    fun e h => fold?_of_literal_none (.inl h)
  have right : ∀ e : Expr, e.literal? = none → fold? op lhs e span = none :=
    fun e h => fold?_of_literal_none (.inr h)
  rw [eq_of_shifted none left lhs, eq_of_shifted none right rhs]

theorem simplify?_shifted (op : BinaryOp) (lhs rhs : Expr) (span : Span) :
    simplify? op (shifted lhs) (shifted rhs) span = (simplify? op lhs rhs span).map shifted := by
  have zero : shifted (.int 0 span) = .int 0 span := rfl
  have constant (value : Bool) : shifted (.bool value span) = .bool value span := rfl
  cases op <;> simp only [simplify?, isInt_shifted, isBool_shifted, isPure_shifted,
    apply_ite (Option.map shifted), Option.map_some, Option.map_none, zero, constant]

/-! ### Shifts behind the other rewrites -/

/-- Nothing happens to an operator on an operand that is no literal, nor to a negation on one that
is not negated. -/
theorem unary_plain (options : Options) (op : UnaryOp) {operand : Expr} (span : Span)
    (literal : operand.literal? = none)
    (plain : op = .not → ∀ inner s, operand ≠ .unary .not inner s) :
    (unary options op operand span).value = .unary op operand span := by
  unfold unary
  dsimp only
  split
  · contradiction
  · contradiction
  · exact absurd rfl (plain rfl _ _)
  · rfl

theorem reduceStrength_ne_unary (options : Options) (op : BinaryOp) (lhs rhs : Expr) (span : Span)
    (op' : UnaryOp) (inner : Expr) (s : Span) :
    (reduceStrength options op lhs rhs span).value ≠ .unary op' inner s := by
  rcases reduceStrength_cases options op lhs rhs span with
    ⟨_, _, _, _, value⟩ | ⟨_, _, _, _, _, value⟩ | ⟨_, value⟩ <;> rw [value] <;> nofun

theorem unary_shifted (level : Nat) (op : UnaryOp) (operand : Expr) (span : Span) :
    (unary ⟨level, true⟩ op (shifted operand) span).value =
      shifted (unary ⟨level, false⟩ op operand span).value := by
  have plains (literal : operand.literal? = none)
      (plain : op = .not → ∀ inner s, operand ≠ .unary .not inner s)
      (plain' : op = .not → ∀ inner s, shifted operand ≠ .unary .not inner s) :
      (unary ⟨level, true⟩ op (shifted operand) span).value =
        shifted (unary ⟨level, false⟩ op operand span).value := by
    rw [unary_plain _ op span literal plain,
      unary_plain _ op span ((literal?_shifted operand).trans literal) plain', shifted_unary]
  cases operand with
  | int value s =>
      rw [shifted_of_literal rfl]
      cases op <;> by_cases one : 1 ≤ level <;> simp [unary, one] <;> rfl
  | bool value s =>
      rw [shifted_of_literal rfl]
      cases op <;> by_cases one : 1 ≤ level <;> simp [unary, one] <;> rfl
  | unary op' inner s =>
      rw [shifted_unary] at plains ⊢
      cases op' with
      | neg => exact plains rfl (by simp) (by simp)
      | not =>
          cases op with
          | neg => exact plains rfl nofun nofun
          | not =>
              by_cases two : 2 ≤ level
              · simp only [unary, two, if_true]
                rfl
              · simp only [unary, two, if_false, Counted.value_pure, shifted_unary]
  | binary op' lhs rhs s =>
      refine plains rfl (by simp) fun _ => ?_
      rw [shifted_binary]
      exact reduceStrength_ne_unary _ _ _ _ _ _
  | var index type s => exact plains rfl (by simp) (by simp [shifted, expr])
  | slot index type s => exact plains rfl (by simp) (by simp [shifted, expr])
  | shl value amount s => exact plains rfl (by simp) (by simp [shifted_shl])
  | call function args result s => exact plains rfl (by simp) (by simp [shifted_call])
  | builtin kind args s => exact plains rfl (by simp) (by simp [shifted_builtin])

theorem binary_shifted (level : Nat) (op : BinaryOp) (lhs rhs : Expr) (span : Span) :
    (binary ⟨level, true⟩ op (shifted lhs) (shifted rhs) span).value =
      shifted (binary ⟨level, false⟩ op lhs rhs span).value := by
  unfold binary
  rw [fold?_shifted, simplify?_shifted]
  dsimp only
  cases folds : (if 1 ≤ level then fold? op lhs rhs span else none) with
  | some e =>
      have found : fold? op lhs rhs span = some e := by
        split at folds
        · exact folds
        · contradiction
      obtain ⟨_, _, _, _, _, literal, _⟩ := fold?_spec found
      exact (shifted_of_literal (e := e) (by simp [literal])).symm
  | none =>
      by_cases two : 2 ≤ level
      · cases simplifies : simplify? op lhs rhs span with
        | some e => simp [two]; rfl
        | none =>
            simp only [two, if_true, Option.map_none]
            exact (shifted_binary op lhs rhs span).symm
      · simp only [two, if_false]
        exact (shifted_binary op lhs rhs span).symm

/-- A pass with shifts is a pass without them behind which they are put in. -/
theorem expr_shifted (level : Nat) (e : Expr) :
    (expr ⟨level, true⟩ e).value = shifted (expr ⟨level, false⟩ e).value := by
  induction e with
  | unary op operand span ih => rw [value_unary, value_unary, ih, unary_shifted]
  | binary op lhs rhs span ihl ihr => rw [value_binary, value_binary, ihl, ihr, binary_shifted]
  | shl value amount span ih => rw [value_shl, value_shl, ih, shifted_shl]
  | call function args result span ih =>
      rw [value_call, value_call, shifted_call, List.map_map, List.map_congr_left ih]
      rfl
  | builtin kind args span ih =>
      rw [value_builtin, value_builtin, shifted_builtin, List.map_map, List.map_congr_left ih]
      rfl
  | _ => rfl

/-- From level 2 on all levels do the same to expressions. -/
theorem expr_of_two_le {level level' : Nat} (high : 2 ≤ level) (high' : 2 ≤ level') (reduces : Bool)
    (e : Expr) : (expr ⟨level, reduces⟩ e).value = (expr ⟨level', reduces⟩ e).value := by
  have one : 1 ≤ level := by omega
  have one' : 1 ≤ level' := by omega
  induction e with
  | unary op operand span ih =>
      rw [value_unary, value_unary, ih]
      simp only [unary, one, one', high, high', if_true]
  | binary op lhs rhs span ihl ihr =>
      rw [value_binary, value_binary, ihl, ihr]
      simp only [binary, one, one', high, high', if_true]
      rfl
  | shl value amount span ih => rw [value_shl, value_shl, ih]
  | call function args result span ih => rw [value_call, value_call, List.map_congr_left ih]
  | builtin kind args span ih => rw [value_builtin, value_builtin, List.map_congr_left ih]
  | _ => rfl

end Workbench.Lowered.Optimization
