import Workbench.Proofs.Syntax.Derivation
import Workbench.Proofs.Syntax.Phrases

/-!
# What is derived is read

A reader recognizes a phrase if it gets to its end with its tree, or meets one of the two bounds of
the language, on nesting and on literals. Each reader recognizes what the grammar derives, provided
that what stands behind the phrase does not go on with it: no operator or call behind an expression,
no alternative behind a conditional.

A reader of expressions never reads the operand on the left of an operator as such. It reads what
the operand begins with and folds the rest onto it, and so the claim for a whole expression is that
folding goes on behind it with its tree, which is then the operand on the left of the next operator.
-/

namespace Workbench.Syntax

open Source (Span)
open Lang (ValueType UnaryOp BinaryOp)
open Syntax.Parser

/-! ### Recognition -/

/-- The problem is not one of grammar: the language bounds nesting and literals. -/
def GrammarProblem.IsLimit (problem : GrammarProblem) : Prop :=
  problem = .nestingTooDeep ∨ problem = .literalTooLarge

namespace Parser

variable {α β : Type} {before middle after : Words}

/-- The reader gets from the words `before` to the words `after` with something `good`, unless it
meets a limit. -/
def Recognizes (p : Parser α) (before after : Words) (good : α → Prop) : Prop :=
  ∀ s, s.wordings = before →
    match p.run s with
    | .ok (a, s') => s'.wordings = after ∧ good a
    | .error e => e.problem.IsLimit

theorem Reads.recognizes {p : Parser α} {good : α → Prop} (h : Reads p before after good) :
    Recognizes p before after good := by
  intro s hs
  obtain ⟨a, s', run, left, ha⟩ := h s hs
  simp only [run]
  exact ⟨left, ha⟩

theorem Recognizes.bind {p : Parser α} {f : α → Parser β} {good : α → Prop} {best : β → Prop}
    (first : Recognizes p before middle good)
    (then_ : ∀ a, good a → Recognizes (f a) middle after best) :
    Recognizes (p >>= f) before after best := by
  intro s hs
  have step := first s hs
  rw [StateT.run_bind]
  cases h : p.run s with
  | error e =>
      rw [h] at step
      exact step
  | ok r =>
      rw [h] at step
      exact then_ r.1 step.2 r.2 step.1

/-- A part that is always read goes first. -/
theorem Reads.andThen {p : Parser α} {f : α → Parser β} {good : α → Prop} {best : β → Prop}
    (first : Reads p before middle good)
    (then_ : ∀ a, good a → Recognizes (f a) middle after best) :
    Recognizes (p >>= f) before after best :=
  first.recognizes.bind then_

theorem recognizes_pure {good : α → Prop} {a : α} (h : good a) :
    Recognizes (pure a) before before good :=
  (reads_pure h).recognizes

theorem Recognizes.mono {p : Parser α} {good best : α → Prop} (h : Recognizes p before after good)
    (le : ∀ a, good a → best a) : Recognizes p before after best := by
  rw [← bind_pure p]
  exact h.bind fun a ha => recognizes_pure (le a ha)

theorem Recognizes.map {p : Parser α} {f : α → β} {good : α → Prop} {best : β → Prop}
    (h : Recognizes p before after good) (le : ∀ a, good a → best (f a)) :
    Recognizes (f <$> p) before after best := by
  rw [map_eq_pure_bind]
  exact h.bind fun a ha => recognizes_pure (le a ha)

/-- The token in front is known up to its place. -/
theorem recognizes_look {w : Wording} {rest : Words} {f : Token → Parser β} {best : β → Prop}
    (h : ∀ span, Recognizes (f ⟨w.kind, w.text, span⟩) (w :: rest) after best) :
    Recognizes (peek >>= f) (w :: rest) after best :=
  reads_look.andThen fun t ht => ht ▸ h t.span

theorem recognizes_refuse {problem : GrammarProblem} {good : α → Prop} (h : problem.IsLimit) :
    Recognizes (refuse problem) before after good :=
  fun _ _ => h

theorem recognizes_too_deep {good : α → Prop} :
    Recognizes (refuse .nestingTooDeep) before after good :=
  recognizes_refuse (.inl rfl)

end Parser

/-! ### Repetition -/

section

variable {α β : Type} {item : Parser α} {R : Words → Words → β → Prop} {f : α → β}
  {before after : Words} {xs : List β}

/-- A comma or a closing parenthesis stands in front. -/
def Closes (words : Words) : Prop :=
  headKind words = .symbol .comma ∨ headKind words = .symbol .rparen

theorem recognizes_separatedAux
    (each : ∀ before after x, R before after x → Closes after →
      Recognizes item before after (f · = x))
    (h : Separated R before (.symbol .rparen :: after) xs) {rounds : Nat}
    (enough : xs.length ≤ rounds) (done : List α) :
    Recognizes (separatedAux item rounds done) before (.symbol .rparen :: after)
      (·.map f = done.reverse.map f ++ xs) := by
  generalize close : Wording.symbol .rparen :: after = last at h ⊢
  induction h generalizing rounds done with
  | last only =>
      subst close
      obtain ⟨rounds, rfl⟩ := Nat.exists_eq_add_one.2 (Nat.zero_lt_of_lt enough)
      refine (each _ _ _ only (.inr rfl)).bind fun a ha => ?_
      refine (reads_eat_other (.symbol .comma) (by simp)).andThen fun comma no => ?_
      rw [if_neg (by simp [no])]
      exact recognizes_pure (by simp [ha])
  | more first _ ih =>
      obtain ⟨rounds, rfl⟩ := Nat.exists_eq_add_one.2 (Nat.zero_lt_of_lt enough)
      refine (each _ _ _ first (.inl rfl)).bind fun a ha => ?_
      refine (reads_eat (.symbol .comma) rfl).andThen fun comma yes => ?_
      rw [if_pos yes]
      refine (ih (Nat.le_of_lt_succ enough) (a :: done) close).mono fun as found => ?_
      rw [found]
      simp [ha]

theorem recognizes_arguments
    (each : ∀ before after x, R before after x → Closes after →
      Recognizes item before after (f · = x))
    (begins : ∀ before after x, R before after x → headKind before ≠ .symbol .rparen)
    (shorter : ∀ before after x, R before after x → after.length < before.length)
    (h : Arguments R before (.symbol .rparen :: after) xs) :
    Recognizes (arguments item) before (.symbol .rparen :: after) (·.map f = xs) := by
  refine (reads_atSymbol .rparen).andThen fun closed found => ?_
  generalize close : Wording.symbol .rparen :: after = last at h
  cases h with
  | none =>
      subst close
      rw [if_pos (by simp [found])]
      exact recognizes_pure rfl
  | some h =>
      subst close
      have more : headKind before ≠ .symbol .rparen := by
        cases h with
        | last only => exact begins _ _ _ only
        | more first => exact begins _ _ _ first
      rw [if_neg (by simp [found, more])]
      refine reads_get.andThen fun s hs => ?_
      have length := h.length_le shorter
      have enough : xs.length ≤ s.rest.length + 1 := by
        rw [s.length_rest, hs]
        omega
      exact recognizes_separatedAux each h enough []

end

/-! ### Expressions -/

theorem Stops.mono {k m : Nat} {words : Words} (h : Stops k words) (le : k ≤ m) :
    Stops m words :=
  fun op hop => Nat.lt_of_lt_of_le (h op hop) le

/-- What the readers of expressions make of the words of one. -/
structure Recognized (m : Nat) (before after : Words) (e : Expr) : Prop where
  /-- The expression is read as far as its end, where folding goes on with it. -/
  folded : headKind after ≠ .symbol .lparen → Stops (m + 1) after → ∀ room least last best,
    least ≤ m →
    (∀ room lhs, lhs.bare = e → Recognizes (parseFolds room least lhs) after last best) →
      Recognizes (parseUnary room >>= parseFolds room least) before last best
  operand : headKind after ≠ .symbol .lparen → 6 < m → ∀ room,
    Recognizes (parseUnary room) before after (·.bare = e)

namespace Recognized

variable {m least : Nat} {before after : Words} {e : Expr}

theorem of_operand (h : headKind after ≠ .symbol .lparen → ∀ room,
    Recognizes (parseUnary room) before after (·.bare = e)) : Recognized m before after e where
  folded noCall _ room _ _ _ _ fold := (h noCall room).bind fun lhs bare => fold room lhs bare
  operand noCall _ := h noCall

theorem of_primary (noSign : unaryOp? (headKind before) = none)
    (h : headKind after ≠ .symbol .lparen → ∀ room,
      Recognizes (parsePrimary room) before after (·.bare = e)) : Recognized m before after e := by
  refine of_operand fun noCall room => ?_
  rw [parseUnary]
  refine reads_peek.andThen fun t ht => ?_
  simp only [ht, noSign]
  exact h noCall room

/-- An expression with nothing behind it that could go on with it. -/
theorem expr (h : Recognized m before after e) (le : least ≤ m) (stops : Stops least after)
    (noCall : headKind after ≠ .symbol .lparen) (room : Nat) :
    Recognizes (parseExpr room least) before after (·.bare = e) := by
  cases room with
  | zero =>
      rw [parseExpr]
      exact recognizes_too_deep
  | succ room =>
      rw [parseExpr]
      have further : Stops (m + 1) after := stops.mono (by omega)
      refine h.folded noCall further room least after _ le fun room lhs bare => ?_
      exact ((reads_folds_end room least lhs stops).recognizes).mono fun a same => same ▸ bare

theorem int {text : String} :
    Recognized m (⟨.intLiteral, text⟩ :: after) after (.int (literalValue text) nowhere) := by
  refine of_primary rfl fun _ room => ?_
  rw [parsePrimary]
  refine recognizes_look fun span => ?_
  refine reads_advance.andThen fun _ _ => ?_
  dsimp only
  split
  · exact recognizes_pure rfl
  · exact fun _ _ => .inr rfl

theorem bool {text : String} :
    Recognized m (⟨.boolLiteral, text⟩ :: after) after (.bool (text == "true") nowhere) := by
  refine of_primary rfl fun _ room => ?_
  rw [parsePrimary]
  refine recognizes_look fun span => ?_
  exact reads_advance.andThen fun _ _ => recognizes_pure rfl

theorem name {text : String} : Recognized m (.ident text :: after) after (.name text nowhere) := by
  refine of_primary rfl fun noCall room => ?_
  rw [parsePrimary]
  refine recognizes_look fun span => ?_
  refine (reads_expectName text).andThen fun callee named => ?_
  refine (reads_eat_other _ noCall).andThen fun isCall no => ?_
  rw [if_neg (by simp [no])]
  exact recognizes_pure (by rw [named]; rfl)

theorem call {text : String} {args : List Expr}
    (each : Arguments (fun before after e => Expr.Derives .standard 1 before after e ∧
      Recognized 1 before after e) before (.symbol .rparen :: after) args) :
    Recognized m (.ident text :: .symbol .lparen :: before) after
      (.call ⟨text, nowhere⟩ args nowhere) := by
  refine of_primary rfl fun _ room => ?_
  rw [parsePrimary]
  refine recognizes_look fun span => ?_
  refine (reads_expectName text).andThen fun callee named => ?_
  refine (reads_eat (.symbol .lparen) rfl).andThen fun isCall yes => ?_
  rw [if_pos yes]
  have arguments : Recognizes (arguments (parseExpr room 1)) before (.symbol .rparen :: after)
      (·.map Expr.bare = args) := by
    apply recognizes_arguments _ _ _ each
    · rintro before after e ⟨_, h⟩ (close | close)
      · exact h.expr (Nat.le_refl 1) (by simp [Stops, close, binaryOp?]) (by simp [close]) room
      · exact h.expr (Nat.le_refl 1) (by simp [Stops, close, binaryOp?]) (by simp [close]) room
    · exact fun before after e h => h.1.begins_ne rfl
    · exact fun before after e h => h.1.length_lt
  refine arguments.bind fun as found => ?_
  refine (reads_expectSymbol .rparen).andThen fun close _ => recognizes_pure ?_
  simp only [Expr.bare, Name.bare, named, bareArgs_eq, found]

theorem parens (inner : Recognized 1 before (.symbol .rparen :: after) e) :
    Recognized m (.symbol .lparen :: before) after e := by
  refine of_primary rfl fun _ room => ?_
  rw [parsePrimary]
  refine recognizes_look fun span => ?_
  refine reads_advance.andThen fun _ _ => ?_
  have stops : Stops 1 (.symbol .rparen :: after) := by intro op hop; cases hop
  refine (inner.expr (Nat.le_refl 1) stops (by simp) room).bind fun e bare => ?_
  refine (reads_expectSymbol .rparen).andThen fun close _ => recognizes_pure ?_
  rw [Expr.bare_withSpan, bare]

theorem unary {op : UnaryOp} (inner : Recognized 7 before after e) :
    Recognized m (unaryWord op :: before) after (.unary op e nowhere) := by
  refine of_operand fun noCall room => ?_
  rw [parseUnary]
  refine reads_peek.andThen fun t ht => ?_
  have sign : unaryOp? t.kind = some op := unaryOp?_eq_some.2 ht
  simp only [sign]
  cases room with
  | zero => exact recognizes_too_deep
  | succ room =>
      refine reads_advance.andThen fun start _ => ?_
      refine (inner.operand noCall (by decide) room).bind fun operand bare => ?_
      exact recognizes_pure (by simp [Expr.bare, bare])

/-- The operand on the left is folded up to the operator, which then goes on with it. -/
theorem binary {op : BinaryOp} {middle : Words} {lhs rhs : Expr} (le : m ≤ op.strength)
    (left : Recognized op.strength before (binaryWord op :: middle) lhs)
    (right : Recognized (op.strength + 1) middle after rhs) :
    Recognized m before after (.binary op lhs rhs nowhere) where
  folded := by
    intro noCall stops room least last best weak fold
    have here : binaryOp? (headKind (binaryWord op :: middle)) = some op :=
      binaryOp?_eq_some.2 rfl
    have noCall' : headKind (binaryWord op :: middle) ≠ .symbol .lparen := by
      cases op <;> simp [binaryWord]
    have stops' : Stops (op.strength + 1) (binaryWord op :: middle) := by
      intro op' hop
      cases here.symm.trans hop
      exact Nat.lt_succ_self _
    -- Folding has come to the operator with the operand on its left, and takes one more round.
    refine left.folded noCall' stops' room least last best (by omega) fun room lhs' bareLeft => ?_
    rw [parseFolds]
    refine reads_peek.andThen fun t ht => ?_
    have strong : ¬ op.strength < least := by omega
    simp only [ht, here, if_neg strong]
    refine reads_advance.andThen fun _ _ => ?_
    cases room with
    | zero => exact recognizes_too_deep
    | succ room =>
        have ends : Stops (op.strength + 1) after := stops.mono (by omega)
        refine (right.expr (Nat.le_refl _) ends noCall room).bind fun rhs' bareRight => ?_
        exact fold room _ (by simp [Expr.bare, bareLeft, bareRight])
  operand := by
    intro _ strong
    have : op.strength ≤ 6 := by cases op <;> decide
    omega

end Recognized

theorem Expr.Derives.recognized {m : Nat} {before after : Words} {e : Expr}
    (h : Expr.Derives .standard m before after e) : Recognized m before after e := by
  induction h using Expr.Derives.induction with
  | int => exact .int
  | bool => exact .bool
  | name => exact .name
  | callNone => exact .call .none
  | call _ args => exact .call (.some (args.imp fun _ _ _ ⟨derived, ih⟩ => ⟨derived, ih⟩))
  | parens _ inner => exact .parens inner
  | unary _ operand => exact .unary operand
  | binary le _ _ left right =>
      simp only [Precedence.standard, level_eq_strength] at le left right
      exact .binary le left right

/-- No word stands in front that could go on with an expression. -/
def EndsExpr (words : Words) : Prop :=
  binaryOp? (headKind words) = none ∧ headKind words ≠ .symbol .lparen

theorem recognizes_parseExpr {before after : Words} {e : Expr}
    (h : Expr.Derives .standard 1 before after e) (ends : EndsExpr after) (room : Nat) :
    Recognizes (parseExpr room 1) before after (·.bare = e) :=
  h.recognized.expr (Nat.le_refl 1) (by simp [Stops, ends.1]) ends.2 room

/-! ### Statements -/

theorem reads_parseType {after : Words} (type : ValueType) :
    Reads parseType (typeWord type :: after) after (· = type) := by
  refine reads_peek.bind fun t ht => ?_
  have kind : t.kind = (typeWord type).kind := ht
  cases type <;> simp only [kind, typeWord, Wording.kind_keyword] <;>
    exact reads_advance.bind fun _ _ => reads_pure rfl

section

variable {room : Nat} {before after : Words}

theorem recognizes_parseCondition {cond : Expr}
    (h : Expr.Derives .standard 1 before (.symbol .rparen :: after) cond) :
    Recognizes (parseCondition room) (.symbol .lparen :: before) after (·.bare = cond) := by
  refine (reads_expectSymbol .lparen).andThen fun _ _ => ?_
  refine (recognizes_parseExpr h ⟨rfl, by simp⟩ room).bind fun e bare => ?_
  exact (reads_expectSymbol .rparen).andThen fun _ _ => recognizes_pure bare

theorem recognizes_finishStmt {start : Span} {build : Span → Stmt} {good : Stmt → Prop}
    (h : ∀ span, good (build span)) :
    Recognizes (finishStmt start build) (.symbol .semi :: after) after good :=
  (reads_expectSymbol .semi).andThen fun _ _ => recognizes_pure (h _)

theorem recognizes_finishExpr {start : Span} {build : Expr → Span → Stmt} {value : Expr}
    {good : Stmt → Prop} (h : Expr.Derives .standard 1 before (.symbol .semi :: after) value)
    (le : ∀ e span, e.bare = value → good (build e span)) :
    Recognizes (parseExpr room 1 >>= fun e => finishStmt start (build e)) before after good := by
  refine (recognizes_parseExpr h ⟨rfl, by simp⟩ room).bind fun e bare => ?_
  exact recognizes_finishStmt fun span => le e span bare

attribute [local simp] Stmt.bare Name.bare

theorem recognizes_letIn {text : String} {type : Option ValueType} {value : Expr}
    (h : Expr.Derives .standard 1 before (.symbol .semi :: after) value) :
    Recognizes (parseSimple room)
      (.keyword .letIn :: .ident text :: (ascription type ++ .symbol .assign :: before)) after
      (·.bare = .letIn ⟨text, nowhere⟩ type value nowhere) := by
  refine recognizes_look fun span => ?_
  refine reads_advance.andThen fun _ _ => (reads_expectName text).andThen fun name named => ?_
  have finish : Recognizes (do
      let _ ← expectSymbol .assign
      let value ← parseExpr room 1
      finishStmt span (.letIn name type value)) (.symbol .assign :: before) after
      (·.bare = .letIn ⟨text, nowhere⟩ type value nowhere) := by
    refine (reads_expectSymbol .assign).andThen fun _ _ => recognizes_finishExpr h ?_
    intro e span bare
    simp [named, bare]
  cases type with
  | none =>
      refine (reads_eat_other (.symbol .colon) (by simp [ascription])).andThen fun colon no => ?_
      rw [if_neg (by simp [no])]
      exact (reads_pure rfl).andThen fun type same => same ▸ finish
  | some type =>
      refine (reads_eat (.symbol .colon) rfl).andThen fun colon yes => ?_
      rw [if_pos yes]
      have typed : Reads (some <$> parseType) (typeWord type :: .symbol .assign :: before)
          (.symbol .assign :: before) (· = some type) :=
        (reads_parseType type).map fun _ same => congrArg some same
      exact typed.andThen fun type same => same ▸ finish

theorem recognizes_assign {text : String} {value : Expr}
    (h : Expr.Derives .standard 1 before (.symbol .semi :: after) value) :
    Recognizes (parseSimple room) (.ident text :: .symbol .assign :: before) after
      (·.bare = .assign ⟨text, nowhere⟩ value nowhere) := by
  refine recognizes_look fun span => ?_
  refine reads_get.andThen fun s hs => ?_
  have sign : s.secondKind = .symbol .assign := by rw [s.secondKind_eq, hs]; rfl
  rw [if_pos (by simp [sign])]
  refine (reads_expectName text).andThen fun target named => reads_advance.andThen fun _ _ => ?_
  refine recognizes_finishExpr h fun e span bare => ?_
  simp [named, bare]

theorem recognizes_returns :
    Recognizes (parseSimple room) (.keyword .returns :: .symbol .semi :: after) after
      (·.bare = .returns none nowhere) := by
  refine recognizes_look fun span => ?_
  refine reads_advance.andThen fun _ _ => (reads_atSymbol .semi).andThen fun ends yes => ?_
  rw [if_pos (by simp [yes])]
  exact (reads_pure rfl).andThen fun value none => recognizes_finishStmt fun _ => none ▸ rfl

theorem recognizes_returnsValue {value : Expr}
    (h : Expr.Derives .standard 1 before (.symbol .semi :: after) value) :
    Recognizes (parseSimple room) (.keyword .returns :: before) after
      (·.bare = .returns (some value) nowhere) := by
  refine recognizes_look fun span => ?_
  refine reads_advance.andThen fun _ _ => (reads_atSymbol .semi).andThen fun ends no => ?_
  have more : headKind before ≠ .symbol .semi := h.begins_ne rfl
  rw [if_neg (by simp [no, more])]
  have read : Recognizes (some <$> parseExpr room 1) before (.symbol .semi :: after)
      (fun e => e.map Expr.bare = some value) :=
    (recognizes_parseExpr h ⟨rfl, by simp⟩ room).map fun e bare => congrArg some bare
  refine read.bind fun e bare => recognizes_finishStmt fun _ => ?_
  rw [Stmt.bare, bare]

theorem recognizes_require {cond : Expr}
    (h : Expr.Derives .standard 1 before (.symbol .rparen :: .symbol .semi :: after) cond) :
    Recognizes (parseSimple room) (.keyword .require :: .symbol .lparen :: before) after
      (·.bare = .require cond nowhere) := by
  refine recognizes_look fun span => ?_
  refine reads_advance.andThen fun _ _ => (recognizes_parseCondition h).bind fun e bare => ?_
  exact recognizes_finishStmt fun _ => by rw [Stmt.bare, bare]

theorem recognizes_eval {value : Expr}
    (h : Expr.Derives .standard 1 before (.symbol .semi :: after) value) :
    Recognizes (parseSimple room) before after (·.bare = .eval value nowhere) := by
  refine reads_peek.andThen fun t ht => ?_
  rw [ht]
  split
  case h_1 same | h_2 same | h_3 same => exact absurd same (h.begins_ne rfl)
  case h_4 =>
    refine reads_get.andThen fun s hs => ?_
    have noSign : ¬ (headKind before = .ident ∧ s.secondKind = .symbol .assign) := by
      rintro ⟨name, sign⟩
      rw [s.secondKind_eq, hs] at sign
      cases h.second name sign
    rw [if_neg noSign]
    refine recognizes_finishExpr h fun e span bare => ?_
    rw [Stmt.bare, bare]

/-- What the reader of statements makes of the words of one. -/
structure RecognizedStmt (before after : Words) (s : Stmt) : Prop where
  derived : Stmt.Derives .standard before after s
  read : headKind after ≠ .keyword .elseThen → ∀ room,
    Recognizes (parseStmt room) before after (·.bare = s)

theorem headKind_stmts {stmts : List Stmt} (h : Sequence RecognizedStmt before after stmts)
    (close : headKind after = .symbol .rbrace) : headKind before ≠ .keyword .elseThen := by
  cases h with
  | nil => simp [close]
  | cons first => exact first.derived.begins_ne rfl

theorem recognizes_untilBraceAux {stmts : List Stmt}
    (h : Sequence RecognizedStmt before (.symbol .rbrace :: after) stmts) {rounds : Nat}
    (enough : stmts.length ≤ rounds) (done : List Stmt) :
    Recognizes (untilBraceAux (parseStmt room) rounds done) before (.symbol .rbrace :: after)
      (·.map Stmt.bare = done.reverse.map Stmt.bare ++ stmts) := by
  generalize close : Wording.symbol .rbrace :: after = last at h ⊢
  induction h generalizing rounds done with
  | nil =>
      subst close
      cases rounds with
      | zero => exact recognizes_pure (by simp)
      | succ rounds =>
          refine reads_peek.andThen fun t ht => ?_
          rw [if_pos (.inl ht)]
          exact recognizes_pure (by simp)
  | @cons before middle after s rest first more ih =>
      obtain ⟨rounds, rfl⟩ := Nat.exists_eq_add_one.2 (Nat.zero_lt_of_lt enough)
      refine reads_peek.andThen fun t ht => ?_
      have noEnd : ¬ (t.kind = .symbol .rbrace ∨ t.kind = .eof) := by
        rw [ht, not_or]
        exact ⟨first.derived.begins_ne rfl, first.derived.begins_ne rfl⟩
      rw [if_neg noEnd]
      -- Another statement or the brace stands behind, so a conditional is not read any further.
      have noElse : headKind middle ≠ .keyword .elseThen := headKind_stmts more (close ▸ rfl)
      refine (first.read noElse room).bind fun a bare => ?_
      refine (ih (Nat.le_of_lt_succ enough) (a :: done) close).mono fun as found => ?_
      rw [found]
      simp [bare]

theorem recognizes_parseBlock {stmts : List Stmt}
    (h : Sequence RecognizedStmt before (.symbol .rbrace :: after) stmts) :
    Recognizes (parseBlock room) (.symbol .lbrace :: before) after
      (·.bare = .mk stmts nowhere) := by
  cases room with
  | zero =>
      rw [parseBlock]
      exact recognizes_too_deep
  | succ room =>
      rw [parseBlock]
      refine (reads_expectSymbol .lbrace).andThen fun _ _ => ?_
      have inner : Recognizes (untilBrace (parseStmt room)) before (.symbol .rbrace :: after)
          (·.map Stmt.bare = stmts) := by
        refine reads_get.andThen fun s hs => ?_
        have length := h.length_le fun _ _ _ first => first.derived.length_lt
        have enough : stmts.length ≤ s.rest.length := by
          rw [s.length_rest, hs]
          omega
        exact recognizes_untilBraceAux h enough []
      refine inner.bind fun as bare => (reads_expectSymbol .rbrace).andThen fun _ _ => ?_
      exact recognizes_pure (by rw [Block.bare, bareStmts_eq, bare])

theorem recognizes_parseStmt {good : Stmt → Prop} (noIf : headKind before ≠ .keyword .ifThen)
    (noWhile : headKind before ≠ .keyword .whileDo)
    (simple : Recognizes (parseSimple room) before after good) :
    Recognizes (parseStmt room) before after good := by
  rw [parseStmt]
  refine reads_peek.andThen fun t ht => ?_
  rw [ht]
  split
  · contradiction
  · contradiction
  · exact simple

theorem recognizes_chained {rest : Words} {good : Stmt → Prop} :
    Recognizes (parseStmt room) (.keyword .ifThen :: rest) after good ↔
      Recognizes (parseIf room) (.keyword .ifThen :: rest) after good := by
  have same (s : Stream) (hs : s.wordings = .keyword .ifThen :: rest) :
      (parseStmt room).run s = (parseIf room).run s := by
    have kind : s.peek.kind = .keyword .ifThen := congrArg Wording.kind (Stream.wording_peek hs)
    have run : peek.run s = .ok (s.peek, s) := rfl
    rw [parseStmt, StateT.run_bind, run]
    simp only [kind, bind, Except.bind]
  constructor
  · intro h s hs
    rw [← same s hs]
    exact h s hs
  · intro h s hs
    rw [same s hs]
    exact h s hs

/-- What can stand behind the block of a conditional, and the alternative that it makes up. -/
inductive Otherwise : Words → Words → Option Block → Prop
  | nothing {after : Words} : headKind after ≠ .keyword .elseThen → Otherwise after after none
  | block {other after : Words} {no : List Stmt} :
      Sequence RecognizedStmt other (.symbol .rbrace :: after) no →
      Otherwise (.keyword .elseThen :: .symbol .lbrace :: other) after (some (.mk no nowhere))
  | chained {other after : Words} {nested : Stmt} :
      (∀ room, Recognizes (parseIf room) (.keyword .ifThen :: other) after (·.bare = nested)) →
      Otherwise (.keyword .elseThen :: .keyword .ifThen :: other) after
        (some (.mk [nested] nowhere))

theorem recognizes_parseIf {middle behind : Words} {cond : Expr} {yes : List Stmt}
    {no : Option Block}
    (condition :
      Expr.Derives .standard 1 before (.symbol .rparen :: .symbol .lbrace :: middle) cond)
    (inner : Sequence RecognizedStmt middle (.symbol .rbrace :: behind) yes)
    (otherwise : Otherwise behind after no) :
    Recognizes (parseIf room) (.keyword .ifThen :: .symbol .lparen :: before) after
      (·.bare = .ifThen cond (.mk yes nowhere) no nowhere) := by
  cases room with
  | zero =>
      rw [parseIf]
      exact recognizes_too_deep
  | succ room =>
      rw [parseIf]
      refine reads_advance.andThen fun start _ => ?_
      refine (recognizes_parseCondition condition).bind fun e bare => ?_
      refine (recognizes_parseBlock inner).bind fun b bareYes => ?_
      cases otherwise with
      | nothing noElse =>
          refine (reads_eat_other _ noElse).andThen fun more no => ?_
          rw [if_neg (by simp [no])]
          exact recognizes_pure (by rw [Stmt.bare, bare, bareYes])
      | block other =>
          refine (reads_eat (.keyword .elseThen) rfl).andThen fun more found => ?_
          rw [if_pos found]
          refine reads_peek.andThen fun t ht => ?_
          rw [if_neg (by simp [ht])]
          refine (recognizes_parseBlock other).bind fun b' bareNo => recognizes_pure ?_
          rw [Stmt.bare, bare, bareYes, bareNo]
      | chained nested =>
          refine (reads_eat (.keyword .elseThen) rfl).andThen fun more found => ?_
          rw [if_pos found]
          refine reads_peek.andThen fun t ht => ?_
          rw [if_pos (by simp [ht])]
          refine (nested room).bind fun s bareNo => ?_
          refine (reads_pure rfl).andThen fun b' same => recognizes_pure ?_
          rw [Stmt.bare, bare, bareYes, ← same, Block.bare, bareStmts, bareStmts, bareNo]

theorem recognizes_whileDo {middle : Words} {cond : Expr} {body : List Stmt}
    (condition :
      Expr.Derives .standard 1 before (.symbol .rparen :: .symbol .lbrace :: middle) cond)
    (inner : Sequence RecognizedStmt middle (.symbol .rbrace :: after) body) :
    Recognizes (parseStmt room) (.keyword .whileDo :: .symbol .lparen :: before) after
      (·.bare = .whileDo cond (.mk body nowhere) nowhere) := by
  rw [parseStmt]
  refine recognizes_look fun span => ?_
  refine reads_advance.andThen fun _ _ => ?_
  refine (recognizes_parseCondition condition).bind fun e bare => ?_
  refine (recognizes_parseBlock inner).bind fun b bareBody => recognizes_pure ?_
  rw [Stmt.bare, bare, bareBody]

theorem Stmt.Derives.recognized {s : Stmt} (h : Stmt.Derives .standard before after s) :
    RecognizedStmt before after s := by
  refine ⟨h, ?_⟩
  have block {before after : Words} {stmts : List Stmt}
      (inner : Sequence (fun before after s => ∃ _ : Stmt.Derives .standard before after s,
        headKind after ≠ .keyword .elseThen → ∀ room,
          Recognizes (parseStmt room) before after (·.bare = s)) before after stmts) :
      Sequence RecognizedStmt before after stmts :=
    inner.imp fun _ _ _ ⟨derived, read⟩ => ⟨derived, read⟩
  induction h using Stmt.Derives.induction with
  | letIn h => exact fun _ _ => recognizes_parseStmt (by simp) (by simp) (recognizes_letIn h)
  | assign h => exact fun _ _ => recognizes_parseStmt (by simp) (by simp) (recognizes_assign h)
  | ifThen h _ inner =>
      intro noElse room
      exact recognizes_chained.2 (recognizes_parseIf h (block inner) (.nothing noElse))
  | ifElse h _ _ inner other =>
      intro _ room
      exact recognizes_chained.2 (recognizes_parseIf h (block inner) (.block (block other)))
  | elseIf h _ _ inner ih =>
      intro noElse room
      have nested : Otherwise _ _ _ := .chained fun room => recognizes_chained.1 (ih noElse room)
      exact recognizes_chained.2 (recognizes_parseIf h (block inner) nested)
  | whileDo h _ inner => exact fun _ _ => recognizes_whileDo h (block inner)
  | returns => exact fun _ _ => recognizes_parseStmt (by simp) (by simp) recognizes_returns
  | returnsValue h =>
      exact fun _ _ => recognizes_parseStmt (by simp) (by simp) (recognizes_returnsValue h)
  | require h => exact fun _ _ => recognizes_parseStmt (by simp) (by simp) (recognizes_require h)
  | eval h =>
      intro _ room
      exact recognizes_parseStmt (h.begins_ne rfl) (h.begins_ne rfl) (recognizes_eval h)

/-! ### Declarations -/

theorem recognizes_parseStorage {d : StorageDecl} (h : StorageDecl.Derives before after d) :
    Recognizes parseStorage before after (·.bare = d) := by
  obtain ⟨⟩ := h
  refine reads_advance.andThen fun _ _ => (reads_expectName _).andThen fun name named => ?_
  refine (reads_expectSymbol .colon).andThen fun _ _ => ?_
  refine (reads_parseType _).andThen fun type same => ?_
  refine (reads_expectSymbol .semi).andThen fun _ _ => recognizes_pure ?_
  simp [StorageDecl.bare, Name.bare, named, same]

theorem recognizes_parseParam {x : Param} (h : Param.Derives before after x) :
    Recognizes parseParam before after (·.bare = x) := by
  obtain ⟨⟩ := h
  refine (reads_expectName _).andThen fun name named => ?_
  refine (reads_expectSymbol .colon).andThen fun _ _ => ?_
  refine (reads_parseType _).andThen fun type same => recognizes_pure ?_
  simp [Param.bare, Name.bare, named, same]

theorem reads_parseModifiersAux (modifiers : List Modifier)
    (noMore : ∀ m : Modifier, headKind after ≠ m.word.kind) {rounds : Nat}
    (enough : modifiers.length ≤ rounds) (flags : Bool × Bool) :
    Reads (parseModifiersAux rounds flags) (modifiers.map Modifier.word ++ after) after
      (· = Modifier.after modifiers flags) := by
  induction modifiers generalizing rounds flags with
  | nil =>
      cases rounds with
      | zero => exact reads_pure rfl
      | succ rounds =>
          refine reads_peek.bind fun t ht => ?_
          rw [ht]
          split
          case h_1 same => exact absurd same (noMore .publicly)
          case h_2 same => exact absurd same (noMore .privately)
          case h_3 same => exact absurd same (noMore .view)
          case h_4 => exact reads_pure rfl
  | cons m rest ih =>
      obtain ⟨rounds, rfl⟩ := Nat.exists_eq_add_one.2 (Nat.zero_lt_of_lt enough)
      have fewer : rest.length ≤ rounds := Nat.le_of_lt_succ enough
      refine reads_look.bind fun t ht => ?_
      have kind : t.kind = m.word.kind := congrArg Wording.kind ht
      cases m <;> simp only [kind, Modifier.word, Wording.kind_keyword] <;>
        exact reads_advance.bind fun _ _ => ih fewer _

theorem reads_parseModifiers_all (modifiers : List Modifier)
    (noMore : ∀ m : Modifier, headKind after ≠ m.word.kind) :
    Reads parseModifiers (modifiers.map Modifier.word ++ after) after
      (· = (Modifier.isPublic modifiers, Modifier.isView modifiers)) := by
  refine reads_get.bind fun s hs => ?_
  have enough : modifiers.length ≤ s.rest.length := by
    rw [s.length_rest, hs]
    simp
  rw [← Modifier.after_eq]
  exact reads_parseModifiersAux modifiers noMore enough _

theorem recognizes_parseFunction {f : FunctionDecl}
    (h : FunctionDecl.Derives .standard before after f) :
    Recognizes parseFunction before after (·.bare = f) := by
  cases h with
  | @mk text before middle after params modifiers result body args block =>
    cases block with
    | @mk inner _ stmts derived =>
      refine reads_advance.andThen fun start _ => ?_
      refine (reads_expectName text).andThen fun name named => ?_
      refine (reads_expectSymbol .lparen).andThen fun _ _ => ?_
      have read : Recognizes (arguments parseParam) before
          (.symbol .rparen :: (modifiers.map Modifier.word ++
            (arrow result ++ .symbol .lbrace :: inner))) (·.map Param.bare = params) := by
        apply recognizes_arguments _ _ _ args
        · exact fun _ _ _ h _ => recognizes_parseParam h
        · rintro _ _ _ ⟨⟩
          simp
        · exact fun _ _ _ h => h.length_lt
      refine read.bind fun xs bareParams => (reads_expectSymbol .rparen).andThen fun _ _ => ?_
      have noMore (m : Modifier) :
          headKind (arrow result ++ .symbol .lbrace :: inner) ≠ m.word.kind := by
        cases result <;> cases m <;> simp [arrow, Modifier.word]
      refine (reads_parseModifiers_all modifiers noMore).andThen fun flags same => ?_
      subst same
      have body : Recognizes (do
          let body ← parseBlock maxDepth
          return FunctionDecl.mk name xs result (Modifier.isPublic modifiers)
            (Modifier.isView modifiers) body (start.span.merge body.span))
          (.symbol .lbrace :: inner) after (·.bare = ⟨⟨text, nowhere⟩, params, result,
            Modifier.isPublic modifiers, Modifier.isView modifiers, .mk stmts nowhere,
            nowhere⟩) := by
        have inner := derived.imp fun _ _ _ h => h.recognized
        refine (recognizes_parseBlock inner).bind fun b bareBody => recognizes_pure ?_
        simp [FunctionDecl.bare, Name.bare, named, bareParams, bareBody]
      cases result with
      | none =>
          refine (reads_eat_other (.symbol .arrow) (by simp [arrow])).andThen fun typed no => ?_
          rw [if_neg (by simp [no])]
          exact (reads_pure rfl).andThen fun type same => same ▸ body
      | some type =>
          refine (reads_eat (.symbol .arrow) rfl).andThen fun typed yes => ?_
          rw [if_pos yes]
          have read : Reads (some <$> parseType) (typeWord type :: .symbol .lbrace :: inner)
              (.symbol .lbrace :: inner) (· = some type) :=
            (reads_parseType type).map fun _ same => congrArg some same
          exact read.andThen fun type same => same ▸ body

theorem recognizes_parseDeclsAux {storage : List StorageDecl} {functions : List FunctionDecl}
    (h : Members .standard before (.symbol .rbrace :: after) storage functions) {rounds : Nat}
    (enough : storage.length + functions.length ≤ rounds) (storage₀ : List StorageDecl)
    (functions₀ : List FunctionDecl) :
    Recognizes (parseDeclsAux rounds storage₀ functions₀) before (.symbol .rbrace :: after)
      (fun decls =>
        decls.1.map StorageDecl.bare = storage₀.reverse.map StorageDecl.bare ++ storage ∧
        decls.2.map FunctionDecl.bare = functions₀.reverse.map FunctionDecl.bare ++ functions) := by
  generalize close : Wording.symbol .rbrace :: after = last at h ⊢
  induction h generalizing rounds storage₀ functions₀ with
  | nil =>
      subst close
      cases rounds with
      | zero => exact recognizes_pure (by simp)
      | succ rounds =>
          refine recognizes_look fun span => ?_
          exact recognizes_pure (by simp)
  | @storage _ _ _ d storage functions declared _ ih =>
      have fewer : storage.length + functions.length < rounds := by
        rw [List.length_cons] at enough
        omega
      obtain ⟨rounds, rfl⟩ := Nat.exists_eq_add_one.2 (Nat.zero_lt_of_lt fewer)
      refine reads_peek.andThen fun t ht => ?_
      simp only [ht, declared.begins]
      refine (recognizes_parseStorage declared).bind fun d' bare => ?_
      have rest := ih (Nat.le_of_lt_succ fewer) (d' :: storage₀) functions₀ close
      refine rest.mono fun decls found => ?_
      simpa [bare] using found
  | @function _ _ _ f storage functions declared _ ih =>
      have fewer : storage.length + functions.length < rounds := by
        rw [List.length_cons] at enough
        omega
      obtain ⟨rounds, rfl⟩ := Nat.exists_eq_add_one.2 (Nat.zero_lt_of_lt fewer)
      refine reads_peek.andThen fun t ht => ?_
      simp only [ht, declared.begins]
      refine (recognizes_parseFunction declared).bind fun f' bare => ?_
      have rest := ih (Nat.le_of_lt_succ fewer) storage₀ (f' :: functions₀) close
      refine rest.mono fun decls found => ?_
      simpa [bare] using found

theorem recognizes_parseContract {words : Words} {c : Contract}
    (h : Contract.Derives .standard words c) : Recognizes parseContract words [] (·.bare = c) := by
  cases h with
  | @mk text before storage functions members =>
    refine (reads_expect (.keyword .contract) _ rfl).andThen fun start _ => ?_
    refine (reads_expectName text).andThen fun name named => ?_
    refine (reads_expectSymbol .lbrace).andThen fun _ _ => reads_get.andThen fun s hs => ?_
    have enough : storage.length + functions.length ≤ s.rest.length + 1 := by
      have := members.length_le
      rw [s.length_rest, hs]
      omega
    refine (recognizes_parseDeclsAux members enough [] []).bind fun decls found => ?_
    refine (reads_expectSymbol .rbrace).andThen fun close _ => reads_peek.andThen fun t ht => ?_
    have ends : t.kind = .eof := ht
    rw [if_pos ends]
    refine recognizes_pure ?_
    simp only [List.reverse_nil, List.map_nil, List.nil_append] at found
    simp [Contract.bare, Name.bare, named, found]

end

end Workbench.Syntax
