import Workbench.Proofs.Syntax.Composition

/-!
# Readers take what they return

`Takes p before found` says that the reader `p`, in front of the tokens `before`, takes some first
of them, and that these and the result are as `found` describes. Whatever the readers of the grammar
return is so a tree over the tokens taken, with the ranges that the rules give.
-/

namespace Workbench.Syntax

open Source (Span)
open Lang (ValueType UnaryOp BinaryOp)
open Syntax.Parser

theorem Stream.cons_of_secondKind {s : Stream} {t : Token} {rest : List Token}
    (tokens : s.rest = t :: rest) {kind : Token.Kind} (second : s.secondKind = kind)
    (notEnd : kind ≠ .eof) : ∃ u others, rest = u :: others ∧ u.kind = kind := by
  unfold secondKind at second
  rw [tokens] at second
  cases rest with
  | nil => exact absurd second.symm notEnd
  | cons u others => exact ⟨u, others, rfl, second⟩

namespace Parser

variable {α β : Type} {before : List Token} {found : List Token → α → Prop}

/-- What the reader takes of the tokens `before`, if it succeeds. -/
def Takes (p : Parser α) (before : List Token) (found : List Token → α → Prop) : Prop :=
  ∀ s a s', s.rest = before → p.run s = .ok (a, s') →
    ∃ own, before = own ++ s'.rest ∧ found own a

theorem takes_pure {a : α} (h : found [] a) : Takes (pure a) before found := by
  intro s b s' hs run
  cases run
  exact ⟨[], hs.symm, h⟩

theorem takes_return {a : α} : Takes (pure a) before fun own b => own = [] ∧ b = a :=
  takes_pure ⟨rfl, rfl⟩

theorem Takes.bind {p : Parser α} {f : α → Parser β} {best : List Token → β → Prop}
    (first : Takes p before found)
    (then_ : ∀ a own rest, before = own ++ rest → found own a →
      Takes (f a) rest fun others b => best (own ++ others) b) :
    Takes (p >>= f) before best := by
  intro s b s' hs run
  rw [StateT.run_bind] at run
  cases h : p.run s with
  | error e =>
      rw [h] at run
      cases run
  | ok r =>
      rw [h] at run
      obtain ⟨own, split, ha⟩ := first s r.1 r.2 hs h
      obtain ⟨others, split', hb⟩ := then_ r.1 own r.2.rest split ha r.2 b s' rfl run
      exact ⟨own ++ others, by rw [List.append_assoc, ← split', split], hb⟩

theorem Takes.mono {p : Parser α} {best : List Token → α → Prop} (h : Takes p before found)
    (le : ∀ own a, found own a → best own a) : Takes p before best := by
  intro s a s' hs run
  obtain ⟨own, split, ha⟩ := h s a s' hs run
  exact ⟨own, split, le own a ha⟩

theorem Takes.map {p : Parser α} {f : α → β} {best : List Token → β → Prop}
    (h : Takes p before found) (le : ∀ own a, found own a → best own (f a)) :
    Takes (f <$> p) before best := by
  rw [map_eq_pure_bind]
  refine h.bind fun a own rest _ ha => takes_pure ?_
  rw [List.append_nil]
  exact le own a ha

theorem Takes.some {p : Parser α} (h : Takes p before found) :
    Takes (Option.some <$> p) before fun own o => ∃ a, o = Option.some a ∧ found own a :=
  h.map fun _ a ha => ⟨a, rfl, ha⟩

theorem takes_throw (e : GrammarError) : Takes (throw e) before found := by
  intro s a s' _ run
  cases run

theorem takes_refuse (problem : GrammarProblem) : Takes (refuse problem) before found := by
  intro s a s' _ run
  cases run

theorem takes_unexpected (what : String) : Takes (unexpected what) before found := by
  intro s a s' _ run
  cases run

theorem takes_get : Takes get before fun own s => own = [] ∧ s.rest = before := by
  intro s a s' hs run
  cases run
  exact ⟨[], hs.symm, rfl, hs⟩

/-! ### Single tokens -/

/-- A token that a reader looks at is the next one, or the closing one where none is left. -/
def Ahead (before : List Token) (t : Token) : Prop :=
  (∃ rest, before = t :: rest) ∨ before = [] ∧ t.kind = .eof

theorem Ahead.cons (ahead : Ahead before t) {kind : Token.Kind} (same : t.kind = kind)
    (notEnd : kind ≠ .eof) : ∃ rest, before = t :: rest := by
  rcases ahead with next | ⟨-, ends⟩
  · exact next
  · exact absurd (same.symm.trans ends) notEnd

theorem Ahead.head {own rest : List Token} {t : Token} (ahead : Ahead (own ++ rest) t)
    (some : own ≠ []) : own.head? = Option.some t := by
  obtain ⟨u, others, rfl⟩ := List.exists_cons_of_ne_nil some
  rcases ahead with ⟨rest', next⟩ | ⟨none, -⟩
  · exact congrArg List.head? next
  · cases none

theorem takes_peek : Takes peek before fun own t => own = [] ∧ Ahead before t := by
  intro s a s' hs run
  cases run
  refine ⟨[], hs.symm, rfl, ?_⟩
  unfold Stream.peek
  subst hs
  cases rest : s.rest with
  | nil => exact .inr ⟨rfl, rfl⟩
  | cons t ts => exact .inl ⟨ts, rfl⟩

theorem takes_advance {t : Token} {rest : List Token} :
    Takes advance (t :: rest) fun own u => own = [t] ∧ u = t := by
  intro s a s' hs run
  cases run
  refine ⟨[t], ?_, rfl, ?_⟩
  · simp [Stream.advance, hs]
  · simp [Stream.peek, hs]

/-- A reader that looks at the next token first. -/
theorem takes_peek_bind {f : Token → Parser β} {best : List Token → β → Prop}
    (h : ∀ t, Ahead before t → Takes (f t) before best) : Takes (peek >>= f) before best := by
  refine takes_peek.bind fun t own rest split => ?_
  rintro ⟨rfl, ahead⟩
  obtain rfl : before = rest := split
  exact h t ahead

/-- A reader that takes a known token first. -/
theorem takes_advance_bind {t : Token} {rest : List Token} {f : Token → Parser β}
    {best : List Token → β → Prop} (h : Takes (f t) rest fun own b => best (t :: own) b) :
    Takes (advance >>= f) (t :: rest) best := by
  refine takes_advance.bind fun u own rest' split => ?_
  rintro ⟨rfl, rfl⟩
  obtain rfl : rest = rest' := by simpa using split
  exact h

theorem takes_expect {kind : Token.Kind} (notEnd : kind ≠ .eof) (what : String) :
    Takes (expect kind what) before fun own t => own = [t] ∧ t.kind = kind := by
  refine takes_peek_bind fun t ahead => ?_
  split
  case isTrue same =>
    obtain ⟨rest, rfl⟩ := ahead.cons same notEnd
    refine takes_advance.mono ?_
    rintro own u ⟨rfl, rfl⟩
    exact ⟨rfl, same⟩
  case isFalse => exact takes_unexpected what

theorem takes_expectSymbol (s : Symbol) :
    Takes (expectSymbol s) before fun own t => own = [t] ∧ t.kind = .symbol s :=
  takes_expect (by simp) _

theorem takes_expectName :
    Takes expectName before fun own x =>
      ∃ t, own = [t] ∧ t.kind = .ident ∧ x = ⟨t.text, t.span⟩ := by
  refine (takes_expect (by simp) _).bind fun t own rest _ => ?_
  rintro ⟨rfl, kind⟩
  exact takes_pure ⟨t, rfl, kind, rfl⟩

theorem takes_name : Takes expectName before fun own x => Phrase (.name x) own := by
  refine takes_expectName.mono ?_
  rintro own x ⟨t, rfl, kind, rfl⟩
  exact .name kind

theorem takes_eat {kind : Token.Kind} (notEnd : kind ≠ .eof) :
    Takes (eat kind) before fun own eaten =>
      if eaten then ∃ t, own = [t] ∧ t.kind = kind else own = [] := by
  refine takes_peek_bind fun t ahead => ?_
  split
  case isTrue same =>
    obtain ⟨rest, rfl⟩ := ahead.cons same notEnd
    exact takes_advance_bind (takes_pure ⟨t, rfl, same⟩)
  case isFalse => exact takes_pure rfl

theorem takes_eatSymbol (s : Symbol) :
    Takes (eat (.symbol s)) before fun own eaten =>
      if eaten then ∃ t, own = [t] ∧ t.kind = .symbol s else own = [] :=
  takes_eat (by simp)

theorem takes_atSymbol (s : Symbol) : Takes (atSymbol s) before fun own _ => own = [] :=
  takes_peek_bind fun _ _ => takes_pure rfl

/-! ### Repetition -/

/-- Tokens that parts as described are made of. -/
def MadeOf (described : List Part → Prop) (own : List Token) : Prop :=
  ∃ parts, described parts ∧ (∀ p ∈ parts, p.Sound) ∧ own = parts.flatMap Part.tokens

section

variable {item : Parser α}

/-- Each comma is a token, so the rounds are never used up. -/
theorem takes_separatedAux {R : α → List Part → Prop}
    (each : ∀ before, Takes item before fun own x => MadeOf (R x) own) {rounds : Nat}
    (enough : before.length < rounds) (done : List α) :
    Takes (separatedAux item rounds done) before fun own xs =>
      ∃ y ys, xs = done.reverse ++ y :: ys ∧ MadeOf (Listed R (y :: ys)) own := by
  induction rounds generalizing before done with
  | zero => contradiction
  | succ rounds ih =>
      refine (each before).bind fun x own rest split => ?_
      rintro ⟨parts, made, sound, rfl⟩
      refine (takes_eatSymbol .comma).bind fun comma own rest' split' taken => ?_
      cases comma with
      | false =>
          obtain rfl : own = [] := taken
          exact takes_pure ⟨x, [], by simp, parts, .last made, sound, by simp⟩
      | true =>
          obtain ⟨t, rfl, kind⟩ := taken
          have fewer : rest'.length < rounds := by
            simp [split, split'] at enough
            omega
          refine (ih fewer (x :: done)).mono ?_
          rintro own xs ⟨y, ys, rfl, others, listed, sound', rfl⟩
          refine ⟨x, y :: ys, by simp, _, .more made kind listed, ?_, by simp⟩
          simpa [or_imp, forall_and] using ⟨sound, sound'⟩

theorem takes_arguments {R : α → List Part → Prop}
    (each : ∀ before, Takes item before fun own x => MadeOf (R x) own) :
    Takes (arguments item) before fun own xs => MadeOf (Listed R xs) own := by
  refine (takes_atSymbol .rparen).bind fun closed own rest split => ?_
  rintro rfl
  cases closed with
  | true => exact takes_pure ⟨[], .none, by simp, rfl⟩
  | false =>
      refine takes_get.bind fun s own rest' _ => ?_
      rintro ⟨rfl, tokens⟩
      have enough : rest'.length < s.rest.length + 1 := by
        simp_all
      refine (takes_separatedAux each enough []).mono ?_
      rintro own xs ⟨y, ys, rfl, made⟩
      exact made

theorem takes_untilBraceAux {found : List Token → α → Prop}
    (each : ∀ before, Takes item before found) (rounds : Nat) (done : List α) :
    Takes (untilBraceAux item rounds done) before fun own xs =>
      ∃ items : List (α × List Token), xs = done.reverse ++ items.map Prod.fst ∧
        own = items.flatMap Prod.snd ∧ ∀ i ∈ items, found i.2 i.1 := by
  induction rounds generalizing before done with
  | zero => exact takes_pure ⟨[], by simp, rfl, by simp⟩
  | succ rounds ih =>
      refine takes_peek_bind fun t _ => ?_
      dsimp only
      split
      · exact takes_pure ⟨[], by simp, rfl, by simp⟩
      · refine (each before).bind fun x own rest _ hx => (ih (x :: done)).mono ?_
        rintro others xs ⟨items, rfl, rfl, all⟩
        exact ⟨(x, own) :: items, by simp, by simp, List.forall_mem_cons.2 ⟨hx, all⟩⟩

theorem takes_untilBrace {found : List Token → α → Prop}
    (each : ∀ before, Takes item before found) :
    Takes (untilBrace item) before fun own xs =>
      ∃ items : List (α × List Token), xs = items.map Prod.fst ∧
        own = items.flatMap Prod.snd ∧ ∀ i ∈ items, found i.2 i.1 := by
  refine takes_get.bind fun s own rest _ => ?_
  rintro ⟨rfl, -⟩
  exact takes_untilBraceAux each _ []

end

end Parser

/-! ### Types -/

theorem takes_parseType {before : List Token} :
    Takes parseType before fun own type => ∃ t, own = [t] ∧ t.kind = (typeWord type).kind := by
  refine takes_peek_bind fun t ahead => ?_
  split
  case h_1 same | h_2 same =>
    obtain ⟨rest, rfl⟩ := ahead.cons same (by simp)
    exact takes_advance_bind (takes_pure ⟨t, rfl, same⟩)
  case h_3 => exact takes_unexpected _

theorem spell_ascription {t u : Token} {type : ValueType} (colon : t.kind = .symbol .colon)
    (typed : u.kind = (typeWord type).kind) : Spell [t, u] (ascription (some type)) := by
  simp [Spell, ascription, colon, typed]

theorem spell_arrow {t u : Token} {type : ValueType} (kind : t.kind = .symbol .arrow)
    (typed : u.kind = (typeWord type).kind) : Spell [t, u] (arrow (some type)) := by
  simp [Spell, arrow, kind, typed]

/-! ### Expressions -/

/-- What the readers of expressions take with some room. -/
structure TakesExprs (room : Nat) : Prop where
  expr : ∀ least before, Takes (parseExpr room least) before fun own e => Phrase (.expr e) own
  unary : ∀ before, Takes (parseUnary room) before fun own e => Phrase (.expr e) own
  folds : ∀ least before lhs left, Phrase (.expr lhs) left →
    Takes (parseFolds room least lhs) before fun own e => Phrase (.expr e) (left ++ own)

theorem takes_argument {room : Nat} {before : List Token}
    (inner : ∀ before, Takes (parseExpr room 1) before fun own e => Phrase (.expr e) own) :
    Takes (parseExpr room 1) before fun own e => MadeOf e.IsArgument own := by
  refine (inner before).mono fun own e phrase => ?_
  exact ⟨_, ⟨own, rfl⟩, by simpa using phrase, by simp⟩

theorem takes_parsePrimary {room : Nat} {before : List Token}
    (inner : ∀ before, Takes (parseExpr room 1) before fun own e => Phrase (.expr e) own) :
    Takes (parsePrimary room) before fun own e => Phrase (.expr e) own := by
  rw [parsePrimary]
  refine takes_peek_bind fun t ahead => ?_
  split
  case h_1 kind =>
    obtain ⟨rest, rfl⟩ := ahead.cons kind (by simp)
    refine takes_advance_bind ?_
    dsimp only
    split
    · exact takes_pure (.of_parts (.int kind) (by simp) rfl)
    · exact takes_throw _
  case h_2 kind =>
    obtain ⟨rest, rfl⟩ := ahead.cons kind (by simp)
    exact takes_advance_bind (takes_pure (.of_parts (.bool kind) (by simp) rfl))
  case h_3 kind =>
    refine takes_expectName.bind fun callee own rest _ => ?_
    rintro ⟨u, rfl, named, rfl⟩
    refine (takes_eatSymbol .lparen).bind fun isCall own rest _ taken => ?_
    cases isCall with
    | false =>
        obtain rfl : own = [] := taken
        exact takes_pure (.of_parts (.reference named) (by simp) rfl)
    | true =>
        obtain ⟨o, rfl, opens⟩ := taken
        refine (takes_arguments fun before => takes_argument inner).bind fun args own rest _ => ?_
        rintro ⟨parts, listed, sound, rfl⟩
        refine (takes_expectSymbol .rparen).bind fun c own rest _ => ?_
        rintro ⟨rfl, closes⟩
        have rule := @Rule.call ⟨u.text, u.span⟩ [u] args parts o c opens listed closes
        refine takes_pure (.of_parts rule ?_ (by simp))
        simpa [or_imp, forall_and] using ⟨Phrase.name named, sound⟩
  case h_4 kind =>
    obtain ⟨rest, rfl⟩ := ahead.cons kind (by simp)
    refine takes_advance_bind ?_
    refine (inner rest).bind fun e own rest _ phrase => ?_
    refine (takes_expectSymbol .rparen).bind fun c own' rest _ => ?_
    rintro ⟨rfl, closes⟩
    exact takes_pure (by simpa using phrase.parens kind closes)
  case h_5 => exact takes_unexpected _

theorem takes_parseUnary {room : Nat} {before : List Token}
    (known : ∀ less, less + 1 = room → TakesExprs less)
    (inner : ∀ before, Takes (parseExpr room 1) before fun own e => Phrase (.expr e) own) :
    Takes (parseUnary room) before fun own e => Phrase (.expr e) own := by
  rw [parseUnary]
  refine takes_peek_bind fun t ahead => ?_
  split
  case h_1 => exact takes_parsePrimary inner
  case h_2 op stands =>
    obtain ⟨rest, rfl⟩ := ahead.cons rfl (by rintro ends; rw [ends] at stands; cases stands)
    cases room with
    | zero => exact takes_refuse _
    | succ room =>
        refine takes_advance_bind ?_
        refine ((known room rfl).unary rest).bind fun operand own rest _ phrase => takes_pure ?_
        exact .of_parts (.unary stands) (by simpa using phrase) (by simp)

theorem takes_parseFolds {room least : Nat} {before left : List Token} {lhs : Expr}
    (known : ∀ less, less + 1 = room → TakesExprs less) (phrase : Phrase (.expr lhs) left) :
    Takes (parseFolds room least lhs) before fun own e => Phrase (.expr e) (left ++ own) := by
  rw [parseFolds]
  refine takes_peek_bind fun t ahead => ?_
  have done : Phrase (.expr lhs) (left ++ []) := by rwa [List.append_nil]
  split
  case h_1 => exact takes_pure done
  case h_2 op stands =>
    split
    case isTrue => exact takes_pure done
    case isFalse =>
      obtain ⟨rest, rfl⟩ := ahead.cons rfl (by rintro ends; rw [ends] at stands; cases stands)
      refine takes_advance_bind ?_
      cases room with
      | zero => exact takes_refuse _
      | succ room =>
          refine ((known room rfl).expr _ rest).bind fun rhs right rest _ phrase' => ?_
          have folded : Phrase (.expr (.binary op lhs rhs (lhs.span.merge rhs.span)))
              (left ++ t :: right) :=
            .of_parts (.binary stands) (by simpa using ⟨phrase, phrase'⟩) (by simp)
          simpa using (known room rfl).folds least rest _ _ folded

theorem takesExprs_of_less {room : Nat} (known : ∀ less, less + 1 = room → TakesExprs less) :
    TakesExprs room := by
  have expr (least : Nat) (before : List Token) :
      Takes (parseExpr room least) before fun own e => Phrase (.expr e) own := by
    cases room with
    | zero =>
        rw [parseExpr]
        exact takes_refuse _
    | succ room =>
        rw [parseExpr]
        refine ((known room rfl).unary before).bind fun first left rest _ phrase => ?_
        exact (known room rfl).folds least rest first left phrase
  constructor
  · exact expr
  · exact fun before => takes_parseUnary known (expr 1)
  · exact fun least before lhs left phrase => takes_parseFolds known phrase

theorem takesExprs (room : Nat) : TakesExprs room := by
  induction room with
  | zero => exact takesExprs_of_less fun less h => nomatch h
  | succ room ih =>
      refine takesExprs_of_less fun less h => ?_
      cases h
      exact ih

theorem takes_parseExpr (room : Nat) (before : List Token) :
    Takes (parseExpr room 1) before fun own e => Phrase (.expr e) own :=
  (takesExprs room).expr 1 before

/-! ### Statements -/

theorem takes_parseCondition {room : Nat} {before : List Token} :
    Takes (parseCondition room) before fun own e => ∃ o inner c, own = [o] ++ inner ++ [c] ∧
      o.kind = .symbol .lparen ∧ Phrase (.expr e) inner ∧ c.kind = .symbol .rparen := by
  refine (takes_expectSymbol .lparen).bind fun o own rest _ => ?_
  rintro ⟨rfl, opens⟩
  refine (takes_parseExpr room rest).bind fun e inner rest _ phrase => ?_
  refine (takes_expectSymbol .rparen).bind fun c own rest _ => ?_
  rintro ⟨rfl, closes⟩
  exact takes_pure ⟨o, inner, c, by simp, opens, phrase, closes⟩

theorem takes_finishStmt {start : Span} {build : Span → Stmt} {before : List Token} :
    Takes (finishStmt start build) before fun own s =>
      ∃ t, own = [t] ∧ t.kind = .symbol .semi ∧ s = build (start.merge t.span) := by
  refine (takes_expectSymbol .semi).bind fun t own rest _ => ?_
  rintro ⟨rfl, ends⟩
  exact takes_pure ⟨t, rfl, ends, rfl⟩

theorem takes_finishExpr {room : Nat} {start : Span} {build : Expr → Span → Stmt}
    {before : List Token} :
    Takes (parseExpr room 1 >>= fun e => finishStmt start (build e)) before fun own s =>
      ∃ e inner t, own = inner ++ [t] ∧ Phrase (.expr e) inner ∧ t.kind = .symbol .semi ∧
        s = build e (start.merge t.span) := by
  refine (takes_parseExpr room before).bind fun e inner rest _ phrase => ?_
  refine takes_finishStmt.mono ?_
  rintro own s ⟨t, rfl, ends, rfl⟩
  exact ⟨e, inner, t, rfl, phrase, ends, rfl⟩

/-- What follows the name of a new variable and its type, if it has one. -/
theorem takes_letIn {room : Nat} {start : Token} (word : start.kind = .keyword .letIn) {name : Name}
    {type : Option ValueType} {named typing rest : List Token} (phrase : Phrase (.name name) named)
    (typed : Spell typing (ascription type)) :
    Takes (do
      let _ ← expectSymbol .assign
      let value ← parseExpr room 1
      finishStmt start.span (.letIn name type value)) rest fun own s =>
      Phrase (.stmt s) (start :: (named ++ (typing ++ own))) := by
  refine (takes_expectSymbol .assign).bind fun a own rest _ => ?_
  rintro ⟨rfl, assigns⟩
  refine takes_finishExpr.mono ?_
  rintro own s ⟨e, inner, t, rfl, phrase', ends, rfl⟩
  have rule := @Rule.letIn name type e start a t named typing inner word typed assigns ends
  refine .of_parts rule ?_ (by simp)
  simp [or_imp, forall_and, phrase, phrase']

theorem takes_assign {room : Nat} {start a : Token} {rest : List Token}
    (kind : start.kind = .ident) (assigns : a.kind = .symbol .assign) :
    Takes (do
      let target ← expectName
      let _ ← advance
      let value ← parseExpr room 1
      finishStmt start.span (.assign target value)) (start :: a :: rest) fun own s =>
      Phrase (.stmt s) own := by
  refine takes_expectName.bind fun target own rest' same => ?_
  rintro ⟨t, rfl, -, rfl⟩
  obtain ⟨rfl, rfl⟩ : start = t ∧ a :: rest = rest' := by simpa using same
  refine takes_advance_bind ?_
  refine takes_finishExpr.mono ?_
  rintro own s ⟨e, inner, t, rfl, phrase, ends, rfl⟩
  have rule := @Rule.assign ⟨start.text, start.span⟩ e a t [start] inner assigns ends
  exact .of_parts rule (by simpa using ⟨Phrase.name kind, phrase⟩) (by simp)

/-- The token that was looked at is the first of the expression. -/
theorem takes_eval {room : Nat} {start : Token} {before : List Token} (ahead : Ahead before start) :
    Takes (do
      let value ← parseExpr room 1
      finishStmt start.span (.eval value)) before fun own s => Phrase (.stmt s) own := by
  refine (takes_parseExpr room before).bind fun e inner rest split phrase => ?_
  subst split
  have first : inner.head? = some start := ahead.head phrase.ne_nil
  refine takes_finishStmt.mono ?_
  rintro own s ⟨t, rfl, ends, rfl⟩
  exact .of_parts (.eval first ends) (by simpa using phrase) (by simp)

theorem takes_returns {room : Nat} {start : Token} {before : List Token}
    (word : start.kind = .keyword .returns) :
    Takes (do
      let value? ← if ← atSymbol .semi then pure none else some <$> parseExpr room 1
      finishStmt start.span (.returns value?)) before fun own s =>
      Phrase (.stmt s) (start :: own) := by
  refine (takes_atSymbol .semi).bind fun bare own rest _ => ?_
  rintro rfl
  cases bare with
  | true =>
      refine takes_return.bind fun value own rest _ => ?_
      rintro ⟨rfl, rfl⟩
      refine takes_finishStmt.mono ?_
      rintro own s ⟨t, rfl, ends, rfl⟩
      exact .of_parts (.returns word ends) (by simp) (by simp)
  | false =>
      refine (takes_parseExpr room rest).some.bind fun value own rest _ => ?_
      rintro ⟨value, rfl, phrase⟩
      refine takes_finishStmt.mono ?_
      rintro own s ⟨t, rfl, ends, rfl⟩
      exact .of_parts (.returnsValue word ends) (by simpa using phrase) (by simp)

theorem takes_parseSimple {room : Nat} {before : List Token} :
    Takes (parseSimple room) before fun own s => Phrase (.stmt s) own := by
  refine takes_peek_bind fun start ahead => ?_
  split
  case h_1 word =>
    obtain ⟨rest, rfl⟩ := ahead.cons word (by simp)
    refine takes_advance_bind ?_
    refine takes_name.bind fun name named rest _ phrase => ?_
    refine (takes_eatSymbol .colon).bind fun colon own rest _ taken => ?_
    cases colon with
    | true =>
        obtain ⟨t, rfl, kind⟩ := taken
        refine takes_parseType.some.bind fun type own rest _ => ?_
        rintro ⟨type, rfl, u, rfl, typed⟩
        exact takes_letIn word phrase (spell_ascription kind typed)
    | false =>
        obtain rfl : own = [] := taken
        refine takes_return.bind fun type own rest _ => ?_
        rintro ⟨rfl, rfl⟩
        exact takes_letIn word phrase rfl
  case h_2 word =>
    obtain ⟨rest, rfl⟩ := ahead.cons word (by simp)
    exact takes_advance_bind (takes_returns word)
  case h_3 word =>
    obtain ⟨rest, rfl⟩ := ahead.cons word (by simp)
    refine takes_advance_bind ?_
    refine takes_parseCondition.bind fun cond own rest _ => ?_
    rintro ⟨o, inner, c, rfl, opens, phrase, closes⟩
    refine takes_finishStmt.mono ?_
    rintro own s ⟨t, rfl, ends, rfl⟩
    exact .of_parts (.require word opens closes ends) (by simpa using phrase) (by simp)
  case h_4 =>
    refine takes_get.bind fun s own rest split => ?_
    rintro ⟨rfl, tokens⟩
    obtain rfl : before = rest := split
    split
    case isTrue second =>
      obtain ⟨rest, rfl⟩ := ahead.cons second.1 (by simp)
      obtain ⟨a, rest, rfl, assigns⟩ := Stream.cons_of_secondKind tokens second.2 (by simp)
      exact takes_assign second.1 assigns
    case isFalse => exact takes_eval ahead

/-- What the readers of blocks and conditionals take with some room. -/
structure TakesNested (room : Nat) : Prop where
  block : ∀ before, Takes (parseBlock room) before fun own b => Phrase (.block b) own
  chained : ∀ t rest, t.kind = .keyword .ifThen → Takes (parseIf room) (t :: rest) fun own s =>
    Phrase (.stmt s) own ∧ ∃ cond yes no span, s = .ifThen cond yes no span

theorem takes_parseStmt {room : Nat} (known : TakesNested room) (before : List Token) :
    Takes (parseStmt room) before fun own s => Phrase (.stmt s) own := by
  rw [parseStmt]
  refine takes_peek_bind fun start ahead => ?_
  split
  case h_1 word =>
    obtain ⟨rest, rfl⟩ := ahead.cons word (by simp)
    exact (known.chained start rest word).mono fun _ _ h => h.1
  case h_2 word =>
    obtain ⟨rest, rfl⟩ := ahead.cons word (by simp)
    refine takes_advance_bind ?_
    refine takes_parseCondition.bind fun cond own rest _ => ?_
    rintro ⟨o, inner, c, rfl, opens, phrase, closes⟩
    refine (known.block rest).bind fun body own rest _ phrase' => takes_pure ?_
    have rule := @Rule.whileDo cond body start o c inner own word opens closes
    exact .of_parts rule (by simpa using ⟨phrase, phrase'⟩) (by simp)
  case h_3 => exact takes_parseSimple

theorem takes_parseBlock {room : Nat} (known : TakesNested room) (before : List Token) :
    Takes (parseBlock (room + 1)) before fun own b => Phrase (.block b) own := by
  rw [parseBlock]
  refine (takes_expectSymbol .lbrace).bind fun o own rest _ => ?_
  rintro ⟨rfl, opens⟩
  refine (takes_untilBrace (takes_parseStmt known)).bind fun stmts own rest _ => ?_
  rintro ⟨items, rfl, rfl, each⟩
  refine (takes_expectSymbol .rbrace).bind fun c own rest _ => ?_
  rintro ⟨rfl, closes⟩
  refine takes_pure (.of_parts (.block opens closes) ?_ (by simp [List.flatMap_map]))
  intro p known
  simp only [List.mem_append, List.mem_singleton, List.mem_map] at known
  rcases known with (rfl | ⟨item, mem, rfl⟩) | rfl
  · exact Part.sound_token o
  · exact each item mem
  · exact Part.sound_token c

theorem takes_parseIf {room : Nat} (known : TakesNested room) {t : Token} (rest : List Token)
    (word : t.kind = .keyword .ifThen) :
    Takes (parseIf (room + 1)) (t :: rest) fun own s =>
      Phrase (.stmt s) own ∧ ∃ cond yes no span, s = .ifThen cond yes no span := by
  rw [parseIf]
  refine takes_advance_bind ?_
  refine takes_parseCondition.bind fun cond own rest _ => ?_
  rintro ⟨o, inner, c, rfl, opens, condition, closes⟩
  refine (known.block rest).bind fun yes first rest _ phrase => ?_
  refine (takes_eat (by simp)).bind fun more own rest _ taken => ?_
  cases more with
  | false =>
      obtain rfl : own = [] := taken
      have rule := @Rule.ifThen cond yes t o c inner first word opens closes
      refine takes_pure ⟨.of_parts rule ?_ (by simp), cond, yes, none, _, rfl⟩
      simpa using ⟨condition, phrase⟩
  | true =>
      obtain ⟨e, rfl, other⟩ := taken
      have whole {no : Block} {second : List Token} (phrase' : Phrase (.block no) second) :
          Phrase (.stmt (.ifThen cond yes (some no) ((t.span.merge yes.span).merge no.span)))
            (t :: ([o] ++ inner ++ [c] ++ (first ++ ([e] ++ second)))) := by
        have rule := @Rule.ifElse cond yes no t o c e inner first second word opens closes other
        exact .of_parts rule (by simpa using ⟨condition, phrase, phrase'⟩) (by simp)
      refine takes_peek_bind fun u ahead => ?_
      split
      case isTrue again =>
        obtain ⟨rest, rfl⟩ := ahead.cons again (by simp)
        refine (known.chained u rest again).bind fun nested own rest _ => ?_
        rintro ⟨phrase', cond', yes', no', span, rfl⟩
        refine takes_return.bind fun no own' rest _ => ?_
        rintro ⟨rfl, rfl⟩
        have second : Phrase (.block ⟨[.ifThen cond' yes' no' span], span⟩) own :=
          .of_parts .chained (by simpa using phrase') (by simp)
        refine takes_pure ⟨?_, cond, yes, _, _, rfl⟩
        simpa [Stmt.span, Block.span] using whole second
      case isFalse =>
        refine (known.block _).bind fun no second rest _ phrase' => ?_
        refine takes_pure ⟨?_, cond, yes, some no, _, rfl⟩
        simpa using whole phrase'

theorem takesNested (room : Nat) : TakesNested room := by
  induction room with
  | zero =>
      constructor
      · intro before
        rw [parseBlock]
        exact takes_refuse _
      · intro t rest _
        rw [parseIf]
        exact takes_refuse _
  | succ room ih => exact ⟨takes_parseBlock ih, fun t rest => takes_parseIf ih rest⟩

/-! ### Declarations -/

theorem Spell.append {own others : List Token} {words more : Words} (h : Spell own words)
    (h' : Spell others more) : Spell (own ++ others) (words ++ more) := by
  unfold Spell at *
  rw [List.map_append, List.map_append, h, h']

theorem takes_parseStorage {t : Token} {rest : List Token} (word : t.kind = .keyword .storage) :
    Takes parseStorage (t :: rest) fun own d => Phrase (.storage d) own := by
  refine takes_advance_bind ?_
  refine takes_name.bind fun name named rest _ phrase => ?_
  refine (takes_expectSymbol .colon).bind fun colon own rest _ => ?_
  rintro ⟨rfl, kind⟩
  refine takes_parseType.bind fun type own rest _ => ?_
  rintro ⟨u, rfl, typed⟩
  refine (takes_expectSymbol .semi).bind fun s own rest _ => ?_
  rintro ⟨rfl, ends⟩
  have rule := @Rule.storage name type t s named [colon, u] word (spell_ascription kind typed) ends
  exact takes_pure (.of_parts rule (by simpa using phrase) (by simp))

theorem takes_parseParam (before : List Token) :
    Takes parseParam before fun own x => MadeOf x.IsParameter own := by
  refine takes_name.bind fun name named rest _ phrase => ?_
  refine (takes_expectSymbol .colon).bind fun colon own rest _ => ?_
  rintro ⟨rfl, kind⟩
  refine takes_parseType.bind fun type own rest _ => ?_
  rintro ⟨u, rfl, typed⟩
  have parameter : Param.IsParameter ⟨name, type⟩ _ :=
    ⟨named, [colon, u], spell_ascription kind typed, rfl⟩
  exact takes_pure ⟨_, parameter, by simpa using phrase, by simp⟩

theorem takes_parseModifiersAux (rounds : Nat) (flags : Bool × Bool) {before : List Token} :
    Takes (parseModifiersAux rounds flags) before fun own result => ∃ modifiers : List Modifier,
      Spell own (modifiers.map Modifier.word) ∧ result = Modifier.after modifiers flags := by
  induction rounds generalizing flags before with
  | zero => exact takes_pure ⟨[], rfl, rfl⟩
  | succ rounds ih =>
      obtain ⟨isPublic, isView⟩ := flags
      -- Each word changes the flags and leaves the rest to the next round.
      refine takes_peek_bind fun t ahead => ?_
      have step (m : Modifier) {flags' : Bool × Bool} (kind : t.kind = m.word.kind)
          (counts : Modifier.after [m] (isPublic, isView) = flags') :
          Takes (advance >>= fun _ => parseModifiersAux rounds flags') before fun own result =>
            ∃ modifiers : List Modifier, Spell own (modifiers.map Modifier.word) ∧
              result = Modifier.after modifiers (isPublic, isView) := by
        obtain ⟨rest, rfl⟩ := ahead.cons kind (by cases m <;> simp [Modifier.word])
        refine takes_advance_bind ((ih flags').mono ?_)
        rintro own result ⟨modifiers, spelled, rfl⟩
        refine ⟨m :: modifiers, congrArg₂ List.cons kind spelled, ?_⟩
        rw [← counts]
        rfl
      split
      case h_1 kind => exact step .publicly kind rfl
      case h_2 kind => exact step .privately kind rfl
      case h_3 kind => exact step .view kind rfl
      case h_4 => exact takes_pure ⟨[], rfl, rfl⟩

theorem takes_parseModifiers {before : List Token} :
    Takes parseModifiers before fun own result => ∃ modifiers : List Modifier,
      Spell own (modifiers.map Modifier.word) ∧
        result = (Modifier.isPublic modifiers, Modifier.isView modifiers) := by
  refine takes_get.bind fun s own rest _ => ?_
  rintro ⟨rfl, -⟩
  refine (takes_parseModifiersAux _ _).mono ?_
  rintro own result ⟨modifiers, spelled, rfl⟩
  exact ⟨modifiers, spelled, Modifier.after_eq modifiers⟩

theorem takes_parseFunction {t : Token} {rest : List Token} (word : t.kind = .keyword .function) :
    Takes parseFunction (t :: rest) fun own f => Phrase (.function f) own := by
  refine takes_advance_bind ?_
  refine takes_name.bind fun name named rest _ phrase => ?_
  refine (takes_expectSymbol .lparen).bind fun o own rest _ => ?_
  rintro ⟨rfl, opens⟩
  refine (takes_arguments takes_parseParam).bind fun params own rest _ => ?_
  rintro ⟨parts, listed, sound, rfl⟩
  refine (takes_expectSymbol .rparen).bind fun c own rest _ => ?_
  rintro ⟨rfl, closes⟩
  refine takes_parseModifiers.bind fun flags words rest _ => ?_
  rintro ⟨modifiers, spelled, rfl⟩
  -- With or without a result, what follows is the same.
  have body {result : Option ValueType} {typing rest : List Token}
      (typed : Spell typing (arrow result)) :
      Takes (do
        let body ← parseBlock maxDepth
        return FunctionDecl.mk name params result (Modifier.isPublic modifiers)
          (Modifier.isView modifiers) body (t.span.merge body.span)) rest fun own f =>
        Phrase (.function f) (t :: (named ++ ([o] ++ (parts.flatMap Part.tokens ++
          ([c] ++ (words ++ (typing ++ own))))))) := by
    refine ((takesNested maxDepth).block rest).bind fun body own rest _ block => takes_pure ?_
    have rule := @Rule.function name params result modifiers body t o c named (words ++ typing) own
      parts word opens listed closes (spelled.append typed)
    refine .of_parts rule ?_ (by simp)
    simpa [or_imp, forall_and] using ⟨phrase, sound, block⟩
  refine (takes_eatSymbol .arrow).bind fun eaten own rest _ taken => ?_
  cases eaten with
  | true =>
      obtain ⟨a, rfl, kind⟩ := taken
      refine takes_parseType.some.bind fun result own rest _ => ?_
      rintro ⟨type, rfl, u, rfl, typed⟩
      exact body (spell_arrow kind typed)
  | false =>
      obtain rfl : own = [] := taken
      refine takes_return.bind fun result own rest _ => ?_
      rintro ⟨rfl, rfl⟩
      exact body rfl

theorem takes_parseDeclsAux (rounds : Nat) (storage : List StorageDecl)
    (functions : List FunctionDecl) {before : List Token} :
    Takes (parseDeclsAux rounds storage functions) before fun own decls =>
      ∃ storage' functions',
        decls = (storage.reverse ++ storage', functions.reverse ++ functions') ∧
        MadeOf (Declared storage' functions') own := by
  have finished {storage : List StorageDecl} {functions : List FunctionDecl} :
      ∃ storage' functions',
        (storage.reverse, functions.reverse) =
          (storage.reverse ++ storage', functions.reverse ++ functions') ∧
        MadeOf (Declared storage' functions') [] :=
    ⟨[], [], by simp, [], .nil, by simp, rfl⟩
  induction rounds generalizing storage functions before with
  | zero => exact takes_pure finished
  | succ rounds ih =>
      refine takes_peek_bind fun t ahead => ?_
      split
      case h_1 word =>
        obtain ⟨rest, rfl⟩ := ahead.cons word (by simp)
        refine (takes_parseStorage word).bind fun d own rest _ phrase => ?_
        refine (ih (d :: storage) functions).mono ?_
        rintro others decls ⟨storage', functions', rfl, parts, declared, sound, rfl⟩
        refine ⟨d :: storage', functions', by simp, _, .storage declared, ?_, rfl⟩
        simpa using ⟨phrase, sound⟩
      case h_2 word =>
        obtain ⟨rest, rfl⟩ := ahead.cons word (by simp)
        refine (takes_parseFunction word).bind fun f own rest _ phrase => ?_
        refine (ih storage (f :: functions)).mono ?_
        rintro others decls ⟨storage', functions', rfl, parts, declared, sound, rfl⟩
        refine ⟨storage', f :: functions', by simp, _, .function declared, ?_, rfl⟩
        simpa using ⟨phrase, sound⟩
      case h_3 => exact takes_pure finished
      case h_4 => exact takes_unexpected _

/-- A contract is a tree over all tokens that there are. -/
theorem takes_parseContract {before : List Token} (noEnd : ∀ t ∈ before, t.kind ≠ .eof) :
    Takes parseContract before fun own c => own = before ∧ Phrase (.contract c) own := by
  refine (takes_expect (by simp) _).bind fun t own rest start => ?_
  rintro ⟨rfl, word⟩
  refine takes_name.bind fun name named rest names phrase => ?_
  refine (takes_expectSymbol .lbrace).bind fun o own rest open_ => ?_
  rintro ⟨rfl, opens⟩
  refine takes_get.bind fun s own rest' same => ?_
  rintro ⟨rfl, -⟩
  obtain rfl : rest = rest' := same
  refine (takes_parseDeclsAux _ [] []).bind fun decls own rest middle => ?_
  rintro ⟨storage, functions, rfl, parts, declared, sound, rfl⟩
  refine (takes_expectSymbol .rbrace).bind fun c own rest close => ?_
  rintro ⟨rfl, closes⟩
  subst start names open_ middle close
  refine takes_peek_bind fun u ahead => ?_
  split
  case isTrue ends =>
    rcases ahead with ⟨others, rfl⟩ | ⟨rfl, -⟩
    · exact absurd ends (noEnd u (by simp))
    · have rule :=
        @Rule.contract name storage functions t o c named parts word opens declared closes
      refine takes_pure ⟨by simp, .of_parts rule ?_ (by simp)⟩
      simpa [or_imp, forall_and] using ⟨phrase, sound⟩
  case isFalse => exact takes_refuse _

end Workbench.Syntax
