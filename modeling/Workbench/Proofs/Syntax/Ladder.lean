import Workbench.Proofs.Syntax.Nesting
import Workbench.Proofs.Syntax.Spelled

/-!
# The bound on nesting

Calls in each other's argument, with additions behind each of them, use up the room of the reader
once for the call and once for its additions, while the tree they are read to has a level for each.
Such ladders attain the bounds on descents, so these cannot be improved, and the bound on nesting is
kept in general only by the descents without a step to the left.
-/

namespace Workbench.Syntax

open Syntax.Parser

/-! ### Ladders -/

def one : Wording := ⟨.intLiteral, "1"⟩

/-- The additions behind a finished operand. -/
def additions (k : Nat) : List Wording :=
  (List.replicate k [.symbol .plus, one]).flatten

/-- Calls in each other's argument, from the outermost on, with the number of additions behind each
of them. -/
def ladder : List Nat → List Wording
  | [] => [one]
  | k :: more => .ident "f" :: .symbol .lparen :: (ladder more ++ .symbol .rparen :: additions k)

/-- Some room lets the additions be read. -/
def Fits : Nat → List Nat → Prop
  | 0, _ => False
  | _ + 1, [] => True
  | room + 1, k :: more => (k = 0 ∨ k < room) ∧ Fits room more

theorem additions_succ (k : Nat) : additions (k + 1) = .symbol .plus :: one :: additions k :=
  rfl

/-! ### Reading a ladder -/

variable {room : Nat} {after : List Wording}

theorem reads_one (room : Nat) :
    Reads (parseUnary room) (one :: after) after (Expr.Descent · 1 0) := by
  have small : literalValue one.text ≤ maxLiteral := by decide
  rw [parseUnary]
  refine reads_peek.bind fun t ht => ?_
  have notUnary : unaryOp? t.kind = none := by rw [ht]; rfl
  simp only [notUnary]
  rw [parsePrimary]
  refine reads_look.bind fun t ht => ?_
  have kind : t.kind = .intLiteral := congrArg Wording.kind ht
  have text : t.text = one.text := congrArg Wording.text ht
  simp only [kind]
  refine reads_advance.bind fun _ _ => ?_
  rw [text, if_pos small]
  exact reads_pure (.stop _)

theorem reads_addend (room : Nat) {least : Nat}
    (h : ∀ op ∈ binaryOp? (headKind after), op.strength < least) :
    Reads (parseExpr (room + 1) least) (one :: after) after (Expr.Descent · 1 0) := by
  rw [parseExpr]
  refine (reads_one room).bind fun e he => ?_
  exact (reads_folds_end room least e h).mono fun a same => same ▸ he

/-- Each addition makes the finished operand one level deeper, and one step further to the left. -/
theorem reads_additions {room k : Nat} (h : k = 0 ∨ k < room) {lhs : Expr} {n l : Nat}
    (d : lhs.Descent n l) (last : binaryOp? (headKind after) = none) :
    Reads (parseFolds room 1 lhs) (additions k ++ after) after
      (Expr.Descent · (n + k) (l + k)) := by
  induction k generalizing room lhs n l with
  | zero =>
      have ends : ∀ op ∈ binaryOp? (headKind after), op.strength < 1 := by simp [last]
      exact (reads_folds_end room 1 lhs ends).mono fun a same => same ▸ d
  | succ k ih =>
      obtain ⟨room, rfl⟩ : ∃ r, room = r + 2 := ⟨room - 2, by omega⟩
      rw [parseFolds]
      refine reads_peek.bind fun t ht => ?_
      have plus : binaryOp? t.kind = some .add := by rw [ht]; rfl
      have strong : ¬ Lang.BinaryOp.strength .add < 1 := by decide
      simp only [plus, if_neg strong]
      refine reads_advance.bind fun _ _ => ?_
      have ends : ∀ op ∈ binaryOp? (headKind (additions k ++ after)),
          op.strength < Lang.BinaryOp.strength .add + 1 := by
        cases k with
        | zero => simp [additions, last]
        | succ k => simp [additions_succ, headKind, Wording.symbol, binaryOp?]
      refine (reads_addend room ends).bind fun rhs _ => ?_
      have rest := ih (by omega : k = 0 ∨ k < room + 1)
        (.left d : (Expr.binary .add lhs rhs (lhs.span.merge rhs.span)).Descent (n + 1) (l + 1))
      rw [Nat.add_right_comm n 1 k, Nat.add_right_comm l 1 k] at rest
      exact rest

theorem reads_arguments {α : Type} {item : Parser α} {words : List Wording} {good : α → Prop}
    (more : headKind (words ++ .symbol .rparen :: after) ≠ .symbol .rparen)
    (inner : Reads item (words ++ .symbol .rparen :: after) (.symbol .rparen :: after) good) :
    Reads (arguments item) (words ++ .symbol .rparen :: after) (.symbol .rparen :: after)
      (fun args => ∃ a, args = [a] ∧ good a) := by
  refine (reads_atSymbol .rparen).bind fun closed no => ?_
  rw [decide_eq_false more] at no
  rw [if_neg (by simp [no])]
  refine reads_get.bind fun s _ => inner.bind fun a ha => ?_
  have last : headKind (.symbol .rparen :: after) ≠ .symbol .comma := by
    simp [headKind, Wording.symbol]
  refine (reads_eat_other (.symbol .comma) last).bind fun comma none => ?_
  rw [if_neg (by simp [none])]
  exact reads_pure ⟨a, rfl, ha⟩

theorem reads_call {room n l : Nat} {argument : List Wording}
    (more : headKind (argument ++ .symbol .rparen :: after) ≠ .symbol .rparen)
    (inner : Reads (parseExpr room 1) (argument ++ .symbol .rparen :: after)
      (.symbol .rparen :: after) (Expr.Descent · n l)) :
    Reads (parseUnary room)
      (.ident "f" :: .symbol .lparen :: (argument ++ .symbol .rparen :: after)) after
      (Expr.Descent · (n + 1) l) := by
  rw [parseUnary]
  refine reads_peek.bind fun t ht => ?_
  have notUnary : unaryOp? t.kind = none := by rw [ht]; rfl
  simp only [notUnary]
  rw [parsePrimary]
  refine reads_look.bind fun t ht => ?_
  have kind : t.kind = .ident := congrArg Wording.kind ht
  simp only [kind]
  refine (reads_expectName "f").bind fun callee _ => ?_
  refine (reads_eat (.symbol .lparen) rfl).bind fun isCall yes => ?_
  rw [if_pos yes]
  refine (reads_arguments more inner).bind fun args found => ?_
  obtain ⟨a, only, ha⟩ := found
  have mem : a ∈ args := by simp [only]
  exact (reads_expectSymbol .rparen).bind fun close _ => reads_pure (.argument mem ha)

theorem headKind_ladder (steps : List Nat) (after : List Wording) :
    headKind (ladder steps ++ after) ≠ .symbol .rparen := by
  cases steps <;> simp [ladder, headKind, one, Wording.ident]

theorem reads_ladder {room : Nat} {steps : List Nat} {after : List Wording} (h : Fits room steps)
    (last : binaryOp? (headKind after) = none) :
    Reads (parseExpr room 1) (ladder steps ++ after) after
      (Expr.Descent · (steps.length + 1 + steps.sum) steps.sum) := by
  induction steps generalizing room after with
  | nil =>
      cases room with
      | zero => cases h
      | succ room => exact reads_addend room (by simp [last])
  | cons k more ih =>
      cases room with
      | zero => cases h
      | succ room =>
          obtain ⟨few, fits⟩ := h
          have closes : binaryOp? (headKind (.symbol .rparen :: (additions k ++ after))) = none :=
            rfl
          have call := reads_call (headKind_ladder more _) (ih fits closes)
          have split : ladder (k :: more) ++ after = .ident "f" :: .symbol .lparen ::
              (ladder more ++ .symbol .rparen :: (additions k ++ after)) := by
            simp [ladder]
          have length : more.length + 1 + more.sum + 1 + k =
              (k :: more).length + 1 + (k :: more).sum := by
            simp
            omega
          have steps : more.sum + k = (k :: more).sum := by
            simp
            omega
          rw [parseExpr, split, ← length, ← steps]
          exact call.bind fun first d => reads_additions few d last

/-! ### Contracts with a ladder -/

theorem separate_ladder (steps : List Nat) : ∀ w ∈ ladder steps, w.Separate := by
  have number : one.Separate := ⟨_, _, rfl, fun _ => rfl⟩
  have callee : (Wording.ident "f").Separate := ⟨_, _, rfl, fun _ => rfl⟩
  have sums (k : Nat) : ∀ w ∈ additions k, w.Separate := by
    intro w mem
    simp only [additions, List.mem_flatten, List.mem_replicate] at mem
    obtain ⟨words, ⟨-, rfl⟩, mem⟩ := mem
    revert w
    simp [separate_symbol, number]
  induction steps with
  | nil => simp [ladder, number]
  | cons k more ih =>
      simp only [ladder, List.forall_mem_cons, List.forall_mem_append]
      exact ⟨callee, separate_symbol _, ih, separate_symbol _, sums k⟩

theorem reads_parseType_i32 : Reads parseType (.keyword .i32 :: after) after (fun _ => True) := by
  refine reads_look.bind fun t ht => ?_
  have kind : t.kind = .keyword .i32 := congrArg Wording.kind ht
  simp only [kind]
  exact reads_advance.bind fun _ _ => reads_pure trivial

theorem reads_parseParam :
    Reads parseParam (.ident "a" :: .symbol .colon :: .keyword .i32 :: after) after
      (fun _ => True) := by
  refine (reads_expectName "a").bind fun name _ => (reads_expectSymbol .colon).bind fun _ _ => ?_
  exact reads_parseType_i32.bind fun type _ => reads_pure trivial

/-- In front of the arrow there are no further words. -/
theorem reads_parseModifiers :
    Reads parseModifiers (.symbol .arrow :: after) (.symbol .arrow :: after) (fun _ => True) := by
  refine reads_get.bind fun s _ => ?_
  cases s.rest.length with
  | zero => exact reads_pure trivial
  | succ rounds =>
      refine reads_look.bind fun t ht => ?_
      have kind : t.kind = .symbol .arrow := congrArg Wording.kind ht
      simp only [kind]
      exact reads_pure trivial

theorem reads_returns {room : Nat} {steps : List Nat} (h : Fits room steps) :
    Reads (parseStmt room) (.keyword .returns :: (ladder steps ++ .symbol .semi :: after)) after
      (fun s => ∃ e ∈ s.exprs, e.Descent (steps.length + 1 + steps.sum) steps.sum) := by
  rw [parseStmt]
  refine reads_look.bind fun t ht => ?_
  have kind : t.kind = .keyword .returns := congrArg Wording.kind ht
  simp only [kind]
  refine reads_look.bind fun t ht => ?_
  have kind : t.kind = .keyword .returns := congrArg Wording.kind ht
  simp only [kind]
  refine reads_advance.bind fun _ _ => (reads_atSymbol .semi).bind fun bare no => ?_
  have more : headKind (ladder steps ++ .symbol .semi :: after) ≠ .symbol .semi := by
    cases steps <;> simp [ladder, headKind, one, Wording.ident]
  rw [decide_eq_false more] at no
  rw [if_neg (by simp [no])]
  have value := reads_ladder h (rfl : binaryOp? (headKind (.symbol .semi :: after)) = none)
  have result : Reads (some <$> parseExpr room 1) (ladder steps ++ .symbol .semi :: after)
      (.symbol .semi :: after)
      (fun o => ∃ e ∈ o.toList, e.Descent (steps.length + 1 + steps.sum) steps.sum) :=
    value.map fun e d => ⟨e, by simp, d⟩
  refine result.bind fun o ho => ?_
  exact (reads_expectSymbol .semi).bind fun close _ => reads_pure ho

theorem reads_untilBraceAux_end {α : Type} (item : Parser α) (rounds : Nat) (done : List α) :
    Reads (untilBraceAux item rounds done) (.symbol .rbrace :: after) (.symbol .rbrace :: after)
      (· = done.reverse) := by
  cases rounds with
  | zero => exact reads_pure rfl
  | succ rounds =>
      refine reads_peek.bind fun t ht => ?_
      have closes : t.kind = .symbol .rbrace := ht
      simp only [closes, true_or, if_true]
      exact reads_pure rfl

/-- A block that holds a single statement. -/
theorem reads_block {room : Nat} {words : List Wording} {good : Stmt → Prop}
    (more : headKind (words ++ .symbol .rbrace :: after) ≠ .symbol .rbrace)
    (some : headKind (words ++ .symbol .rbrace :: after) ≠ .eof)
    (inner : Reads (parseStmt room) (words ++ .symbol .rbrace :: after)
      (.symbol .rbrace :: after) good) :
    Reads (parseBlock (room + 1)) (.symbol .lbrace :: (words ++ .symbol .rbrace :: after)) after
      (fun b => ∃ s ∈ b.stmts, good s) := by
  rw [parseBlock]
  refine (reads_expectSymbol .lbrace).bind fun _ _ => ?_
  have stmts : Reads (untilBrace (parseStmt room)) (words ++ .symbol .rbrace :: after)
      (.symbol .rbrace :: after) (fun stmts => ∃ s ∈ stmts, good s) := by
    refine reads_get.bind fun s hs => ?_
    rw [s.length_rest, hs, List.length_append, List.length_cons, ← Nat.add_assoc]
    refine reads_peek.bind fun t ht => ?_
    rw [if_neg (by rw [ht]; exact fun h => h.elim more some)]
    refine inner.bind fun s hs => ?_
    exact (reads_untilBraceAux_end _ _ [s]).mono fun stmts only => ⟨s, by simp [only], hs⟩
  refine stmts.bind fun stmts h => ?_
  exact (reads_expectSymbol .rbrace).bind fun _ _ => reads_pure h

theorem reads_body {room : Nat} {steps : List Nat} (h : Fits room steps) :
    Reads (parseBlock (room + 1)) (.symbol .lbrace :: .keyword .returns ::
        (ladder steps ++ .symbol .semi :: .symbol .rbrace :: after)) after
      (Block.Descent · (steps.length + 2 + steps.sum) steps.sum) := by
  let words : List Wording := .keyword .returns :: (ladder steps ++ [.symbol .semi])
  have split : words ++ .symbol .rbrace :: after =
      .keyword .returns :: (ladder steps ++ .symbol .semi :: .symbol .rbrace :: after) := by
    simp [words]
  have inner : Reads (parseStmt room) (words ++ .symbol .rbrace :: after) (.symbol .rbrace :: after)
      (fun s => ∃ e ∈ s.exprs, e.Descent (steps.length + 1 + steps.sum) steps.sum) := by
    rw [split]
    exact reads_returns h
  have starts : headKind (words ++ .symbol .rbrace :: after) = .keyword .returns := rfl
  rw [← split]
  refine (reads_block (by simp [starts]) (by simp [starts]) inner).mono ?_
  rintro b ⟨s, memStmt, e, memExpr, d⟩
  have := Block.Descent.expr memStmt memExpr d
  rwa [Nat.add_right_comm _ steps.sum 1] at this

/-- The function of the contract, up to its closing brace. -/
def ladderFunction (steps : List Nat) (after : List Wording) : List Wording :=
  .keyword .function :: .ident "f" :: .symbol .lparen :: .ident "a" :: .symbol .colon ::
    .keyword .i32 :: .symbol .rparen :: .symbol .arrow :: .keyword .i32 :: .symbol .lbrace ::
      .keyword .returns :: (ladder steps ++ .symbol .semi :: .symbol .rbrace :: after)

theorem reads_parseFunction {steps : List Nat} (h : Fits (maxDepth - 1) steps) :
    Reads parseFunction (ladderFunction steps after) after
      (fun f => f.body.Descent (steps.length + 2 + steps.sum) steps.sum) := by
  refine reads_advance.bind fun start _ => (reads_expectName "f").bind fun name _ => ?_
  refine (reads_expectSymbol .lparen).bind fun _ _ => ?_
  let param : List Wording := [.ident "a", .symbol .colon, .keyword .i32]
  have more (rest : List Wording) : headKind (param ++ rest) ≠ .symbol .rparen := by
    simp [param, headKind, Wording.ident]
  refine (reads_arguments (more _) reads_parseParam).bind fun params _ => ?_
  refine (reads_expectSymbol .rparen).bind fun _ _ => reads_parseModifiers.bind fun flags _ => ?_
  refine (reads_eat (.symbol .arrow) rfl).bind fun arrow yes => ?_
  rw [if_pos yes]
  have type : Reads (some <$> parseType) (.keyword .i32 :: .symbol .lbrace :: .keyword .returns ::
      (ladder steps ++ .symbol .semi :: .symbol .rbrace :: after)) _ (fun _ => True) :=
    reads_parseType_i32.map fun _ _ => trivial
  refine type.bind fun type _ => (reads_body h).bind fun body d => reads_pure d

theorem reads_parseDeclsAux {steps : List Nat} (h : Fits (maxDepth - 1) steps) (rounds : Nat) :
    Reads (parseDeclsAux (rounds + 1) [] []) (ladderFunction steps (.symbol .rbrace :: after))
      (.symbol .rbrace :: after) (fun decls => ∃ f ∈ decls.2,
        f.body.Descent (steps.length + 2 + steps.sum) steps.sum) := by
  refine reads_look.bind fun t ht => ?_
  have kind : t.kind = .keyword .function := congrArg Wording.kind ht
  simp only [kind]
  refine (reads_parseFunction h).bind fun f d => ?_
  cases rounds with
  | zero => exact reads_pure ⟨f, by simp, d⟩
  | succ rounds =>
      refine reads_look.bind fun t ht => ?_
      have kind : t.kind = .symbol .rbrace := congrArg Wording.kind ht
      simp only [kind]
      exact reads_pure ⟨f, by simp, d⟩

/-- A contract with a single function that returns the value of a ladder. -/
def ladderContract (steps : List Nat) : List Wording :=
  .keyword .contract :: .ident "T" :: .symbol .lbrace ::
    ladderFunction steps [.symbol .rbrace]

theorem reads_parseContract {steps : List Nat} (h : Fits (maxDepth - 1) steps) :
    Reads parseContract (ladderContract steps) [] (fun c => ∃ f ∈ c.functions,
      f.body.Descent (steps.length + 2 + steps.sum) steps.sum) := by
  refine (reads_expect (.keyword .contract) _ rfl).bind fun start _ => ?_
  refine (reads_expectName "T").bind fun name _ => (reads_expectSymbol .lbrace).bind fun _ _ => ?_
  refine reads_get.bind fun s _ => (reads_parseDeclsAux h _).bind fun decls deep => ?_
  refine (reads_expectSymbol .rbrace).bind fun close _ => reads_peek.bind fun t ht => ?_
  have ends : t.kind = .eof := ht
  rw [if_pos ends]
  exact reads_pure deep

theorem separate_ladderContract (steps : List Nat) :
    ∀ w ∈ ladderContract steps, w.Separate := by
  have contract : (Wording.ident "T").Separate := ⟨_, _, rfl, fun _ => rfl⟩
  have function : (Wording.ident "f").Separate := ⟨_, _, rfl, fun _ => rfl⟩
  have param : (Wording.ident "a").Separate := ⟨_, _, rfl, fun _ => rfl⟩
  have body := separate_ladder steps
  simp only [ladderContract, ladderFunction, List.forall_mem_append, List.forall_mem_cons]
  simp only [separate_symbol, separate_keyword, contract, function, param]
  simpa using body

/-- The text of a contract with a ladder. -/
def ladderSource (steps : List Nat) : String :=
  String.ofList (spell (ladderContract steps))

theorem parse_ladderSource {steps : List Nat} (h : Fits (maxDepth - 1) steps) :
    ∃ c, parse (ladderSource steps) = .ok c ∧ ∃ f ∈ c.functions,
      f.body.Descent (steps.length + 2 + steps.sum) steps.sum := by
  obtain ⟨clean, words⟩ := lex_spell (separate_ladderContract steps)
  let lexed := lex (ladderSource steps)
  obtain ⟨c, s, run, -, deep⟩ := reads_parseContract h ⟨lexed.tokens, lexed.size⟩ words
  refine ⟨c, ?_, deep⟩
  have read : Contract.ofStream ⟨lexed.tokens, lexed.size⟩ = .ok c := by
    rw [Contract.ofStream, StateT.run'_eq, run]
    rfl
  have clean : lexed.diagnostics.isEmpty = true := by rw [List.isEmpty_iff]; exact clean
  unfold parse
  simp only
  rw [if_pos clean, read]

/-! ### Every excess occurs -/

/-- Calls with as many additions behind the outer ones as fit, `l` altogether. -/
def spread : Nat → Nat → List Nat
  | 0, _ => []
  | room + 1, l => min l room :: spread room (l - min l room)

theorem fits_spread (room l : Nat) : Fits (room + 1) (spread room l) := by
  induction room generalizing l with
  | zero => trivial
  | succ room ih => exact ⟨.inr (by omega), ih _⟩

theorem length_spread (room l : Nat) : (spread room l).length = room := by
  induction room generalizing l with
  | zero => rfl
  | succ room ih => rw [spread, List.length_cons, ih]

theorem lt_reach (room : Nat) : room < reach (room + 1) := by
  induction room with
  | zero => decide
  | succ room ih =>
      have := reach_lt (room + 1)
      omega

theorem sum_spread {room l : Nat} (h : l + room < reach (room + 1)) : (spread room l).sum = l := by
  induction room generalizing l with
  | zero =>
      simp only [reach] at h
      simp only [spread, List.sum_nil]
      omega
  | succ room ih =>
      have step : reach (room + 1 + 1) = reach (room + 1) + (room + 1) := rfl
      have few := lt_reach room
      have rest := ih (by omega : l - min l room + room < reach (room + 1))
      rw [spread, List.sum_cons, rest]
      omega

theorem maxDescent_eq : maxDescent = 32387 := by
  decide +kernel

/-- The text whose tree exceeds the bound on nesting by `l` levels. -/
def deepSource (l : Nat) : String := ladderSource (spread (maxDepth - 2) l)

/-- Both bounds on descents are attained, whatever the number of steps to the left. -/
theorem parse_deepSource {l : Nat} (h : maxDepth + l ≤ maxDescent) :
    ∃ c, parse (deepSource l) = .ok c ∧ ∃ f ∈ c.functions, f.body.Descent (maxDepth + l) l := by
  have top : maxDescent = reach (maxDepth - 2 + 1) + 1 := rfl
  have depth : maxDepth - 2 + 2 = maxDepth := rfl
  have sum : (spread (maxDepth - 2) l).sum = l := sum_spread (by omega)
  have deep := parse_ladderSource (fits_spread (maxDepth - 2) l)
  rwa [length_spread, sum, depth] at deep

/-! ### The bound on nesting -/

/-- The bound on nesting holds of a tree that was read exactly if no left operand is too deep for
its place. It can be exceeded by as many levels as a descent has steps to the left. -/
theorem nesting_bounded_iff {source : String} {c : Contract} {f : FunctionDecl}
    (parsed : parse source = .ok c) (declared : f ∈ c.functions) :
    ((∀ n l, f.body.Descent n l → n ≤ maxDepth) ↔
      ∀ n l, 0 < l → f.body.Descent n l → n ≤ maxDepth) ∧
    ∀ n l, f.body.Descent n l → n ≤ maxDepth + l ∧ n ≤ 32387 := by
  have within := within_of_parse parsed f declared
  rw [maxDescent_eq] at within
  refine ⟨⟨fun h n l _ d => h n l d, fun h n l d => ?_⟩, within⟩
  cases l with
  | zero => exact (within n 0 d).1
  | succ l => exact h n (l + 1) (Nat.succ_pos l) d

theorem nesting_bounded_iff_deepSource : ∃ c f, parse (deepSource 253) = .ok c ∧
    f ∈ c.functions ∧
    ((∀ n l, f.body.Descent n l → n ≤ maxDepth) ↔
      ∀ n l, 0 < l → f.body.Descent n l → n ≤ maxDepth) ∧
    ∀ n l, f.body.Descent n l → n ≤ maxDepth + l ∧ n ≤ 32387 := by
  have fits : maxDepth + 253 ≤ maxDescent := by rw [maxDescent_eq]; decide
  obtain ⟨c, parsed, f, declared, -⟩ := parse_deepSource fits
  exact ⟨c, f, parsed, declared, nesting_bounded_iff parsed declared⟩

/-- Two hundred and fifty-four calls with two hundred and fifty-three additions behind the
outermost one are read to a tree of 509 levels. -/
theorem nesting_exceeded : ∃ c, parse (deepSource 253) = .ok c ∧
    ¬ ∀ f ∈ c.functions, ∀ n l, f.body.Descent n l → n ≤ maxDepth := by
  have fits : maxDepth + 253 ≤ maxDescent := by rw [maxDescent_eq]; decide
  obtain ⟨c, parsed, f, declared, d⟩ := parse_deepSource fits
  refine ⟨c, parsed, fun bounded => ?_⟩
  have := bounded f declared _ _ d
  omega

end Workbench.Syntax
