import Workbench.Lowered.Optimization
import Workbench.Proofs.Lowered.Soundness

/-!
# The rewrites of the optimizer

What the optimizer may replace an operator by is a matter of words only: two literals give the value
of the operator on them, a neutral literal gives the other operand, an absorbing one a literal, and
a multiplication by a power of two is a shift. Typing and meaning of the optimizer are both read off
from the facts collected here.
-/

namespace Workbench.Lowered

open Source (Span)
open Lang (Ty UnaryOp BinaryOp Word)

/-! ### Literals -/

/-- The word of a literal. -/
def Expr.literal? : Expr → Option Word
  | .int value _ => some value
  | .bool value _ => some (Word.ofBool value)
  | _ => none

theorem Expr.Typed.of_literal {Γ : Context} {live : List Nat} {e : Expr} {w : Word}
    (h : e.literal? = some w) : e.Typed Γ live := by
  cases e with
  | int value span => trivial
  | bool value span => trivial
  | _ => contradiction

namespace Optimization

theorem literal?_of_isInt {value : Word} {e : Expr} (h : isInt value e) :
    e.literal? = some value := by
  cases e with
  | int v span =>
      simp only [isInt, beq_iff_eq] at h
      rw [← h]
      rfl
  | _ => contradiction

theorem literal?_of_isBool {value : Bool} {e : Expr} (h : isBool value e) :
    e.literal? = some (Word.ofBool value) := by
  cases e with
  | bool v span =>
      simp only [isBool, beq_iff_eq] at h
      rw [← h]
      rfl
  | _ => contradiction

end Optimization

/-! ### Operators on words -/

/-- The value of an operator on two words, unless it traps on them. -/
def resultOn? (op : BinaryOp) (a b : Word) : Option Word :=
  (op.settled? a).or (op.combine? a b)

namespace Optimization

theorem divides_of_divisible {a b : Word} (h : (b != 0 && !(a == Word.least && b == -1)) = true) :
    ¬ (b = 0 ∨ a = Word.least ∧ b = -1) := by
  simp only [Bool.and_eq_true, bne_iff_ne, ne_eq, Bool.not_eq_true', Bool.and_eq_false_iff,
    beq_eq_false_iff_ne] at h
  rintro (zero | ⟨least, minusOne⟩)
  · exact h.1 zero
  · exact h.2.elim (fun h => h least) (fun h => h minusOne)

theorem foldWords_spec {op : BinaryOp} {a b : Word} {span : Span} {e : Expr}
    (h : foldWords op a b span = some e) :
    e.literal? = resultOn? op a b ∧ e.literal?.isSome ∧ e.type = binaryType op := by
  cases op <;> simp only [foldWords] at h
  case div =>
    split at h
    case isTrue divisible =>
      cases h
      have value : Word.quotient? a b = some (a.sdiv b) := if_neg (divides_of_divisible divisible)
      exact ⟨value.symm, rfl, rfl⟩
    case isFalse => contradiction
  case rem =>
    split at h
    case isTrue divisible =>
      cases h
      have value : Word.remainder? a b = some (a.srem b) :=
        if_neg fun zero => divides_of_divisible divisible (.inl zero)
      exact ⟨value.symm, rfl, rfl⟩
    case isFalse => contradiction
  case and | or => contradiction
  all_goals
    cases h
    exact ⟨rfl, rfl, rfl⟩

theorem foldBools_spec {op : BinaryOp} {a b : Bool} {span : Span} {e : Expr}
    (h : foldBools op a b span = some e) :
    e.literal? = resultOn? op (Word.ofBool a) (Word.ofBool b) ∧ e.literal?.isSome ∧
      e.type = binaryType op := by
  cases op <;> simp only [foldBools] at h
  case eq | ne | and | or =>
    cases h
    refine ⟨?_, rfl, rfl⟩
    cases a <;> cases b <;> rfl
  all_goals contradiction

/-- An evaluated operator is the literal of its value. -/
theorem fold?_spec {op : BinaryOp} {lhs rhs : Expr} {span : Span} {e : Expr}
    (h : fold? op lhs rhs span = some e) :
    ∃ a b w, lhs.literal? = some a ∧ rhs.literal? = some b ∧ e.literal? = some w ∧
      resultOn? op a b = some w ∧ e.type = binaryType op := by
  unfold fold? at h
  split at h
  case h_1 a _ b _ =>
    obtain ⟨value, has, type⟩ := foldWords_spec h
    obtain ⟨w, hw⟩ := Option.isSome_iff_exists.1 has
    exact ⟨a, b, w, rfl, rfl, hw, value ▸ hw, type⟩
  case h_2 a _ b _ =>
    obtain ⟨value, has, type⟩ := foldBools_spec h
    obtain ⟨w, hw⟩ := Option.isSome_iff_exists.1 has
    exact ⟨_, _, w, rfl, rfl, hw, value ▸ hw, type⟩
  case h_3 => contradiction

/-! ### Identities -/

/-- What an operator comes to when one of its operands is a neutral or an absorbing literal. -/
inductive Identity (op : BinaryOp) (lhs rhs : Expr) : Expr → Prop where
  /-- The second operand is neutral. -/
  | left {w : Word} (literal : rhs.literal? = some w)
      (type : ∀ left right, Operands op left right → left = binaryType op)
      (neutral : ∀ a, Proper (binaryType op) a → resultOn? op a w = some a) :
      Identity op lhs rhs lhs
  /-- The first operand is neutral. -/
  | right {w : Word} (literal : lhs.literal? = some w)
      (type : ∀ left right, Operands op left right → right = binaryType op)
      (unsettled : op.settled? w = none) (neutral : ∀ b, op.combine? w b = some b) :
      Identity op lhs rhs rhs
  /-- The first operand settles the operator. -/
  | settled {w z : Word} {e : Expr} (literal : lhs.literal? = some w) (value : e.literal? = some z)
      (type : e.type = binaryType op) (settles : op.settled? w = some z) : Identity op lhs rhs e
  /-- The second operand absorbs a first one that cannot be noticed. -/
  | absorbLeft {w z : Word} {e : Expr} (literal : rhs.literal? = some w) (pure : lhs.isPure)
      (value : e.literal? = some z) (type : e.type = binaryType op)
      (absorbs : ∀ a, resultOn? op a w = some z) : Identity op lhs rhs e
  /-- The first operand absorbs a second one that cannot be noticed. -/
  | absorbRight {w z : Word} {e : Expr} (literal : lhs.literal? = some w) (pure : rhs.isPure)
      (value : e.literal? = some z) (type : e.type = binaryType op)
      (unsettled : op.settled? w = none) (absorbs : ∀ b, op.combine? w b = some z) :
      Identity op lhs rhs e

attribute [local simp] simplify? resultOn? BinaryOp.settled? BinaryOp.combine?

theorem simplify?_add {lhs rhs : Expr} {span : Span} {e : Expr}
    (h : simplify? .add lhs rhs span = some e) : Identity .add lhs rhs e := by
  simp only [simplify?] at h
  split at h
  case isTrue zero =>
    cases h
    exact .left (literal?_of_isInt zero) (fun _ _ h => h.1) fun a _ => by
      simp
  case isFalse =>
    split at h
    case isTrue zero =>
      cases h
      exact .right (literal?_of_isInt zero) (fun _ _ h => h.2) rfl fun b => by
        simp
    case isFalse => contradiction

theorem simplify?_sub {lhs rhs : Expr} {span : Span} {e : Expr}
    (h : simplify? .sub lhs rhs span = some e) : Identity .sub lhs rhs e := by
  simp only [simplify?] at h
  split at h
  case isTrue zero =>
    cases h
    exact .left (literal?_of_isInt zero) (fun _ _ h => h.1) fun a _ => by
      simp
  case isFalse => contradiction

theorem simplify?_mul {lhs rhs : Expr} {span : Span} {e : Expr}
    (h : simplify? .mul lhs rhs span = some e) : Identity .mul lhs rhs e := by
  simp only [simplify?] at h
  split at h
  case isTrue one =>
    cases h
    exact .left (literal?_of_isInt one) (fun _ _ h => h.1) fun a _ => by
      simp
  case isFalse =>
    split at h
    case isTrue one =>
      cases h
      exact .right (literal?_of_isInt one) (fun _ _ h => h.2) rfl fun b => by
        simp
    case isFalse =>
      split at h
      case isTrue zero =>
        cases h
        obtain ⟨zero, pure⟩ := Bool.and_eq_true_iff.1 zero
        exact .absorbLeft (literal?_of_isInt zero) pure rfl rfl fun a => by
          simp
      case isFalse =>
        split at h
        case isTrue zero =>
          cases h
          obtain ⟨zero, pure⟩ := Bool.and_eq_true_iff.1 zero
          exact .absorbRight (literal?_of_isInt zero) pure rfl rfl rfl fun b => by
            simp
        case isFalse => contradiction

theorem quotient?_one (a : Word) : Word.quotient? a 1 = some a := by
  have divides : ¬ ((1 : Word) = 0 ∨ a = Word.least ∧ (1 : Word) = -1) := by
    simp
  have value : a.sdiv 1 = a := BitVec.sdiv_one
  rw [Word.quotient?, if_neg divides, value]

theorem simplify?_div {lhs rhs : Expr} {span : Span} {e : Expr}
    (h : simplify? .div lhs rhs span = some e) : Identity .div lhs rhs e := by
  simp only [simplify?] at h
  split at h
  case isTrue one =>
    cases h
    exact .left (literal?_of_isInt one) (fun _ _ h => h.1) fun a _ => quotient?_one a
  case isFalse => contradiction

theorem simplify?_and {lhs rhs : Expr} {span : Span} {e : Expr}
    (h : simplify? .and lhs rhs span = some e) : Identity .and lhs rhs e := by
  simp only [simplify?] at h
  split at h
  case isTrue truth =>
    cases h
    exact .right (literal?_of_isBool truth) (fun _ _ h => h.2) rfl fun b => rfl
  case isFalse =>
    split at h
    case isTrue falsity =>
      cases h
      exact .settled (literal?_of_isBool falsity) rfl rfl rfl
    case isFalse =>
      split at h
      case isTrue truth =>
        cases h
        refine .left (literal?_of_isBool truth) (fun _ _ h => h.1) fun a proper => ?_
        rcases proper with rfl | rfl <;> rfl
      case isFalse =>
        split at h
        case isTrue falsity =>
          cases h
          obtain ⟨falsity, pure⟩ := Bool.and_eq_true_iff.1 falsity
          refine .absorbLeft (literal?_of_isBool falsity) pure rfl rfl fun a => ?_
          rw [resultOn?, BinaryOp.settled?]
          split <;> rfl
        case isFalse => contradiction

theorem simplify?_or {lhs rhs : Expr} {span : Span} {e : Expr}
    (h : simplify? .or lhs rhs span = some e) : Identity .or lhs rhs e := by
  simp only [simplify?] at h
  split at h
  case isTrue falsity =>
    cases h
    exact .right (literal?_of_isBool falsity) (fun _ _ h => h.2) rfl fun b => rfl
  case isFalse =>
    split at h
    case isTrue truth =>
      cases h
      exact .settled (literal?_of_isBool truth) rfl rfl rfl
    case isFalse =>
      split at h
      case isTrue falsity =>
        cases h
        refine .left (literal?_of_isBool falsity) (fun _ _ h => h.1) fun a proper => ?_
        rcases proper with rfl | rfl <;> rfl
      case isFalse =>
        split at h
        case isTrue truth =>
          cases h
          obtain ⟨truth, pure⟩ := Bool.and_eq_true_iff.1 truth
          refine .absorbLeft (literal?_of_isBool truth) pure rfl rfl fun a => ?_
          rw [resultOn?, BinaryOp.settled?]
          split <;> rfl
        case isFalse => contradiction

/-- A simplified operator is one with a neutral or an absorbing operand. -/
theorem simplify?_identity {op : BinaryOp} {lhs rhs : Expr} {span : Span} {e : Expr}
    (h : simplify? op lhs rhs span = some e) : Identity op lhs rhs e := by
  cases op with
  | add => exact simplify?_add h
  | sub => exact simplify?_sub h
  | mul => exact simplify?_mul h
  | div => exact simplify?_div h
  | and => exact simplify?_and h
  | or => exact simplify?_or h
  | _ => contradiction

/-! ### Shifts -/

/-- A multiplication by the literal is a shift by the exponent. -/
theorem shiftAmount?_spec {e : Expr} {amount : Nat} (h : shiftAmount? e = some amount) :
    amount < 32 ∧ ∃ w, e.literal? = some w ∧ ∀ a : Word, a * w = a <<< amount := by
  cases e with
  | int v span =>
      simp only [shiftAmount?] at h
      split at h
      case isTrue power =>
        cases h
        simp only [Bool.and_eq_true, decide_eq_true_eq, beq_iff_eq] at power
        obtain ⟨⟨-, small⟩, power⟩ := power
        refine ⟨by omega, v, rfl, fun a => ?_⟩
        have value : v = BitVec.twoPow 32 v.toNat.log2 := by
          apply BitVec.eq_of_toNat_eq
          rw [BitVec.toNat_twoPow, Nat.mod_eq_of_lt (Nat.pow_lt_pow_right (by omega) (by omega)),
            ← Nat.one_shiftLeft]
          exact power
        rw [BitVec.shiftLeft_eq_mul_twoPow, ← value]
      case isFalse => contradiction
  | _ => contradiction

/-! ### What becomes of an operator -/

/-- A reduced operator is a shift of one of its operands or itself. -/
theorem reduceStrength_cases (options : Options) (op : BinaryOp) (lhs rhs : Expr) (span : Span) :
    (∃ amount, options.strengthReduction ∧ op = .mul ∧ shiftAmount? rhs = some amount ∧
      (reduceStrength options op lhs rhs span).value = .shl lhs amount span) ∨
    (∃ amount, options.strengthReduction ∧ op = .mul ∧ shiftAmount? rhs = none ∧
      shiftAmount? lhs = some amount ∧
      (reduceStrength options op lhs rhs span).value = .shl rhs amount span) ∨
    (options.strengthReduction → op = .mul → shiftAmount? rhs = none ∧ shiftAmount? lhs = none) ∧
      (reduceStrength options op lhs rhs span).value = .binary op lhs rhs span := by
  unfold reduceStrength
  by_cases enabled : options.strengthReduction && op == .mul
  · obtain ⟨reduces, mul⟩ := Bool.and_eq_true_iff.1 enabled
    have mul : op = .mul := by simpa using mul
    rw [if_pos enabled]
    cases right : shiftAmount? rhs with
    | some amount => exact .inl ⟨amount, reduces, mul, rfl, rfl⟩
    | none =>
        cases left : shiftAmount? lhs with
        | some amount => exact .inr (.inl ⟨amount, reduces, mul, rfl, rfl, rfl⟩)
        | none => exact .inr (.inr ⟨fun _ _ => ⟨rfl, rfl⟩, rfl⟩)
  · rw [if_neg enabled]
    refine .inr (.inr ⟨fun reduces mul => ?_, rfl⟩)
    simp [reduces, mul] at enabled

/-- An operator is evaluated, simplified or reduced. -/
theorem binary_cases (options : Options) (op : BinaryOp) (lhs rhs : Expr) (span : Span) :
    (∃ e, fold? op lhs rhs span = some e ∧ binary options op lhs rhs span = .folded e) ∨
    (∃ e, Identity op lhs rhs e ∧ binary options op lhs rhs span = .simplified e) ∨
    binary options op lhs rhs span = reduceStrength options op lhs rhs span := by
  unfold binary
  split
  case h_1 e found =>
    split at found
    · exact .inl ⟨e, found, rfl⟩
    · contradiction
  case h_2 =>
    split
    case h_1 e found =>
      split at found
      · exact .inr (.inl ⟨e, simplify?_identity found, rfl⟩)
      · contradiction
    case h_2 => exact .inr (.inr rfl)

/-- A literal is evaluated, what is negated twice is simplified, and the rest stays as it is. -/
theorem unary_cases (options : Options) (op : UnaryOp) (operand : Expr) (span : Span) :
    (∃ value s, op = .neg ∧ operand = .int value s ∧
      unary options op operand span = .folded (.int (-value) span)) ∨
    (∃ value s, op = .not ∧ operand = .bool value s ∧
      unary options op operand span = .folded (.bool (!value) span)) ∨
    (∃ inner s, op = .not ∧ operand = .unary .not inner s ∧
      unary options op operand span = .simplified inner) ∨
    unary options op operand span = pure (.unary op operand span) := by
  unfold unary
  dsimp only
  split
  case h_1 value s =>
    split
    · exact .inl ⟨value, s, rfl, rfl, rfl⟩
    · exact .inr (.inr (.inr rfl))
  case h_2 value s =>
    split
    · exact .inr (.inl ⟨value, s, rfl, rfl, rfl⟩)
    · exact .inr (.inr (.inr rfl))
  case h_3 inner s =>
    split
    · exact .inr (.inr (.inl ⟨inner, s, rfl, rfl, rfl⟩))
    · exact .inr (.inr (.inr rfl))
  case h_4 => exact .inr (.inr (.inr rfl))

end Optimization

end Workbench.Lowered
