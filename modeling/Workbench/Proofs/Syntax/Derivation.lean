import Workbench.Proofs.Syntax.Grammar

/-!
# What is read is derived

Whatever a reader returns is, up to places, the tree of the words that it has taken. `Finds p before
found` says so of a single reader: behind the words `before` it leaves some of the last of them, and
these and the result are as `found` describes. Words are taken as the lexer makes them, each with
the only spelling that there is for its kind.

For expressions the loop that folds operators carries the argument. The strength of the next
operator is at most that of the last one, since the operand between them ends there, so the operand
on the left is one that the next operator accepts.
-/

namespace Workbench.Syntax

open Source (Span)
open Lang (ValueType UnaryOp BinaryOp)
open Syntax.Parser

/-- Symbols and reserved words are spelled as there is only one way to, and no word stands for the
end of the input. -/
def Wording.Canonical (w : Wording) : Prop :=
  match w.kind with
  | .symbol s => w = .symbol s
  | .keyword k => w = .keyword k
  | .eof => False
  | _ => True

theorem Wording.Canonical.eq_symbol {w : Wording} (h : w.Canonical) {s : Symbol}
    (kind : w.kind = .symbol s) : w = .symbol s := by
  unfold Canonical at h
  rwa [kind] at h

theorem Wording.Canonical.eq_keyword {w : Wording} (h : w.Canonical) {k : Keyword}
    (kind : w.kind = .keyword k) : w = .keyword k := by
  unfold Canonical at h
  rwa [kind] at h

theorem Wording.Canonical.ne_eof {w : Wording} (h : w.Canonical) : w.kind ≠ .eof := by
  intro kind
  unfold Canonical at h
  rwa [kind] at h

theorem Stream.secondKind_eq (s : Stream) : s.secondKind = headKind s.wordings.tail := by
  unfold secondKind wordings headKind
  rcases s.rest with _ | ⟨t, _ | ⟨u, rest⟩⟩ <;> rfl

namespace Parser

variable {α β : Type} {before : Words} {found : Words → α → Prop}

/-- What the reader makes of the words `before`. -/
def Finds (p : Parser α) (before : Words) (found : Words → α → Prop) : Prop :=
  (∀ w ∈ before, w.Canonical) → ∀ s a s', s.wordings = before → p.run s = .ok (a, s') →
    s'.wordings <:+ before ∧ found s'.wordings a

theorem finds_pure {a : α} (h : found before a) : Finds (pure a) before found := by
  intro _ s b s' hs run
  cases run
  exact ⟨hs ▸ List.suffix_rfl, hs ▸ h⟩

theorem finds_return {a : α} : Finds (pure a) before fun after b => after = before ∧ b = a :=
  finds_pure ⟨rfl, rfl⟩

theorem Finds.bind {p : Parser α} {f : α → Parser β} {best : Words → β → Prop}
    (first : Finds p before found)
    (then_ : ∀ a middle, middle <:+ before → found middle a → Finds (f a) middle best) :
    Finds (p >>= f) before best := by
  intro canonical s b s' hs run
  rw [StateT.run_bind] at run
  cases h : p.run s with
  | error e =>
      rw [h] at run
      cases run
  | ok r =>
      rw [h] at run
      obtain ⟨left, ha⟩ := first canonical s r.1 r.2 hs h
      have rest := then_ r.1 _ left ha fun w mem => canonical w (left.subset mem)
      obtain ⟨further, hb⟩ := rest r.2 b s' rfl run
      exact ⟨further.trans left, hb⟩

theorem Finds.mono {p : Parser α} {best : Words → α → Prop} (h : Finds p before found)
    (le : ∀ after a, found after a → best after a) : Finds p before best := by
  intro canonical s a s' hs run
  obtain ⟨left, ha⟩ := h canonical s a s' hs run
  exact ⟨left, le _ _ ha⟩

theorem Finds.map {p : Parser α} {f : α → β} {best : Words → β → Prop} (h : Finds p before found)
    (le : ∀ after a, found after a → best after (f a)) : Finds (f <$> p) before best := by
  rw [map_eq_pure_bind]
  exact h.bind fun a _ _ ha => finds_pure (le _ a ha)

theorem Finds.some {p : Parser α} (h : Finds p before found) :
    Finds (Option.some <$> p) before fun after o => ∃ a, o = Option.some a ∧ found after a :=
  h.map fun _ a ha => ⟨a, rfl, ha⟩

/-- The words can be taken as the lexer makes them. -/
theorem finds_of_canonical {p : Parser α}
    (h : (∀ w ∈ before, w.Canonical) → Finds p before found) : Finds p before found :=
  fun canonical => h canonical canonical

theorem finds_throw (e : GrammarError) : Finds (throw e) before found := by
  intro _ s a s' _ run
  cases run

theorem finds_refuse (problem : GrammarProblem) : Finds (refuse problem) before found := by
  intro _ s a s' _ run
  cases run

theorem finds_unexpected (what : String) : Finds (unexpected what) before found := by
  intro _ s a s' _ run
  cases run

/-! ### Single words -/

theorem finds_peek :
    Finds peek before fun after t => after = before ∧ t.kind = headKind before := by
  intro _ s a s' hs run
  cases run
  exact ⟨hs ▸ List.suffix_rfl, hs, s.kind_peek.trans (congrArg headKind hs)⟩

theorem finds_look {w : Wording} {rest : Words} :
    Finds peek (w :: rest) fun after t => after = w :: rest ∧ t.wording = w := by
  intro _ s a s' hs run
  cases run
  exact ⟨hs ▸ List.suffix_rfl, hs, Stream.wording_peek hs⟩

theorem finds_advance {w : Wording} {rest : Words} :
    Finds advance (w :: rest) fun after t => after = rest ∧ t.wording = w := by
  intro _ s a s' hs run
  cases run
  have left : s.advance.wordings = rest := by
    rw [s.wordings_advance, hs]
    rfl
  exact ⟨left ▸ List.suffix_cons w rest, left, Stream.wording_peek hs⟩

/-- A reader that looks at the kind of the next word first. -/
theorem finds_peek_bind {f : Token → Parser β} {best : Words → β → Prop}
    (h : (∀ w ∈ before, w.Canonical) → ∀ t, t.kind = headKind before → Finds (f t) before best) :
    Finds (peek >>= f) before best := by
  refine finds_of_canonical fun canonical => finds_peek.bind fun t words _ => ?_
  rintro ⟨rfl, kind⟩
  exact h canonical t kind

/-- A reader that takes a known word first. -/
theorem finds_advance_bind {w : Wording} {rest : Words} {f : Token → Parser β}
    {best : Words → β → Prop} (h : ∀ t, Finds (f t) rest best) :
    Finds (advance >>= f) (w :: rest) best := by
  refine finds_advance.bind fun t words _ => ?_
  rintro ⟨rfl, -⟩
  exact h t

theorem cons_of_headKind {kind : Token.Kind} (h : headKind before = kind) (notEnd : kind ≠ .eof) :
    ∃ w rest, before = w :: rest ∧ w.kind = kind := by
  cases before with
  | nil => exact absurd h.symm notEnd
  | cons w rest => exact ⟨w, rest, rfl, h⟩

theorem eq_nil_of_eof (canonical : ∀ w ∈ before, w.Canonical) (h : headKind before = .eof) :
    before = [] := by
  cases before with
  | nil => rfl
  | cons w rest => exact absurd h (canonical w List.mem_cons_self).ne_eof

theorem cons_of_keyword (canonical : ∀ w ∈ before, w.Canonical) {k : Keyword}
    (h : headKind before = .keyword k) : ∃ rest, before = .keyword k :: rest := by
  obtain ⟨w, rest, rfl, kind⟩ := cons_of_headKind h (by simp)
  exact ⟨rest, by rw [(canonical w List.mem_cons_self).eq_keyword kind]⟩

theorem cons_of_symbol (canonical : ∀ w ∈ before, w.Canonical) {s : Symbol}
    (h : headKind before = .symbol s) : ∃ rest, before = .symbol s :: rest := by
  obtain ⟨w, rest, rfl, kind⟩ := cons_of_headKind h (by simp)
  exact ⟨rest, by rw [(canonical w List.mem_cons_self).eq_symbol kind]⟩

theorem finds_expect {kind : Token.Kind} (notEnd : kind ≠ .eof) (what : String) :
    Finds (expect kind what) before fun after t => before = t.wording :: after ∧ t.kind = kind := by
  refine finds_peek_bind fun canonical t ht => ?_
  split
  case isTrue same =>
    obtain ⟨w, rest, rfl, isKind⟩ := cons_of_headKind (ht.symm.trans same) notEnd
    refine finds_advance.mono ?_
    rintro after t' ⟨rfl, rfl⟩
    exact ⟨rfl, isKind⟩
  case isFalse => exact finds_unexpected what

theorem finds_expectSymbol (s : Symbol) :
    Finds (expectSymbol s) before fun after _ => before = .symbol s :: after := by
  refine finds_of_canonical fun canonical => (finds_expect (by simp) _).mono ?_
  rintro after t ⟨rfl, kind⟩
  rw [(canonical _ List.mem_cons_self).eq_symbol kind]

theorem finds_expectKeyword (k : Keyword) (what : String) :
    Finds (expect (.keyword k) what) before fun after _ => before = .keyword k :: after := by
  refine finds_of_canonical fun canonical => (finds_expect (by simp) _).mono ?_
  rintro after t ⟨rfl, kind⟩
  rw [(canonical _ List.mem_cons_self).eq_keyword kind]

theorem finds_expectName :
    Finds expectName before fun after name => before = .ident name.text :: after := by
  refine (finds_expect (by simp) _).bind fun t after _ => ?_
  rintro ⟨rfl, kind⟩
  refine finds_pure ?_
  rw [Token.wording, kind]
  rfl

theorem finds_eat (kind : Token.Kind) (notEnd : kind ≠ .eof) :
    Finds (eat kind) before fun after eaten =>
      if eaten then ∃ w, w.kind = kind ∧ before = w :: after
      else after = before ∧ headKind before ≠ kind := by
  refine finds_peek_bind fun canonical t ht => ?_
  split
  case isTrue same =>
    obtain ⟨w, rest, rfl, isKind⟩ := cons_of_headKind (ht.symm.trans same) notEnd
    refine finds_advance_bind fun t' => ?_
    exact finds_pure ⟨w, isKind, rfl⟩
  case isFalse other => exact finds_pure ⟨rfl, fun same => other (ht.trans same)⟩

theorem finds_eatSymbol (s : Symbol) :
    Finds (eat (.symbol s)) before fun after eaten =>
      if eaten then before = .symbol s :: after
      else after = before ∧ headKind before ≠ .symbol s := by
  refine finds_of_canonical fun canonical => (finds_eat (.symbol s) (by simp)).mono ?_
  intro after eaten h
  cases eaten with
  | false => exact h
  | true =>
      obtain ⟨w, kind, rfl⟩ := h
      rw [(canonical _ List.mem_cons_self).eq_symbol kind]
      rfl

theorem finds_eatKeyword (k : Keyword) :
    Finds (eat (.keyword k)) before fun after eaten =>
      if eaten then before = .keyword k :: after
      else after = before ∧ headKind before ≠ .keyword k := by
  refine finds_of_canonical fun canonical => (finds_eat (.keyword k) (by simp)).mono ?_
  intro after eaten h
  cases eaten with
  | false => exact h
  | true =>
      obtain ⟨w, kind, rfl⟩ := h
      rw [(canonical _ List.mem_cons_self).eq_keyword kind]
      rfl

theorem finds_atSymbol (s : Symbol) :
    Finds (atSymbol s) before fun after yes =>
      after = before ∧ (yes = true ↔ headKind before = .symbol s) := by
  refine finds_peek_bind fun canonical t ht => ?_
  exact finds_pure ⟨rfl, by rw [ht, decide_eq_true_iff]⟩

theorem finds_get : Finds get before fun after s => after = before ∧ s.wordings = before := by
  intro _ s a s' hs run
  cases run
  exact ⟨hs ▸ List.suffix_rfl, hs, hs⟩

/-! ### Repetition -/

section

variable {item : Parser α} {R : Words → Words → β → Prop} {f : α → β}
  (each : ∀ before, Finds item before fun after a => R before after (f a))

include each

/-- Each comma takes a word, so the rounds are never used up. -/
theorem finds_separatedAux {rounds : Nat} (enough : before.length < rounds) (done : List α) :
    Finds (separatedAux item rounds done) before fun after xs =>
      ∃ ys, xs = done.reverse ++ ys ∧ Separated R before after (ys.map f) := by
  induction rounds generalizing before done with
  | zero => contradiction
  | succ rounds ih =>
      refine (each before).bind fun x middle shorter hx => ?_
      refine (finds_eatSymbol .comma).bind fun comma after _ taken => ?_
      cases comma with
      | true =>
          obtain rfl : middle = .symbol .comma :: after := taken
          have length := shorter.length_le
          rw [List.length_cons] at length
          refine (ih (by omega) (x :: done)).mono ?_
          rintro after xs ⟨ys, rfl, rest⟩
          exact ⟨x :: ys, by simp, .more hx rest⟩
      | false =>
          obtain ⟨rfl, -⟩ := taken
          exact finds_pure ⟨[x], by simp, .last hx⟩

theorem finds_arguments :
    Finds (arguments item) before fun after xs => Arguments R before after (xs.map f) := by
  refine (finds_atSymbol .rparen).bind fun closed words _ => ?_
  rintro ⟨rfl, -⟩
  cases closed with
  | true => exact finds_pure .none
  | false =>
      refine finds_get.bind fun s words' _ => ?_
      rintro ⟨rfl, rfl⟩
      have enough : s.wordings.length < s.rest.length + 1 := by
        rw [s.length_rest]
        omega
      refine (finds_separatedAux each enough []).mono ?_
      rintro after xs ⟨ys, rfl, derived⟩
      exact .some derived

theorem finds_untilBraceAux (rounds : Nat) (done : List α) :
    Finds (untilBraceAux item rounds done) before fun after xs =>
      ∃ ys, xs = done.reverse ++ ys ∧ Sequence R before after (ys.map f) := by
  induction rounds generalizing before done with
  | zero => exact finds_pure ⟨[], by simp, .nil⟩
  | succ rounds ih =>
      refine finds_peek_bind fun _ t _ => ?_
      dsimp only
      split
      · exact finds_pure ⟨[], by simp, .nil⟩
      · refine (each before).bind fun x middle _ hx => (ih (x :: done)).mono ?_
        rintro after xs ⟨ys, rfl, rest⟩
        exact ⟨x :: ys, by simp, .cons hx rest⟩

theorem finds_untilBrace :
    Finds (untilBrace item) before fun after xs => Sequence R before after (xs.map f) := by
  refine finds_get.bind fun s words _ => ?_
  rintro ⟨rfl, -⟩
  refine (finds_untilBraceAux each _ []).mono ?_
  rintro after xs ⟨ys, rfl, derived⟩
  exact derived

end

end Parser

/-! ### Types and operators -/

theorem finds_parseType {before : Words} :
    Finds parseType before fun after type => before = typeWord type :: after := by
  refine finds_peek_bind fun canonical t ht => ?_
  split
  case h_1 same | h_2 same =>
    obtain ⟨w, rest, rfl, kind⟩ := cons_of_headKind (ht.symm.trans same) (by simp)
    refine finds_advance_bind fun _ => ?_
    exact finds_pure (by rw [(canonical w List.mem_cons_self).eq_keyword kind]; rfl)
  case h_3 => exact finds_unexpected _

theorem unaryOp?_eq_some {kind : Token.Kind} {op : UnaryOp} :
    unaryOp? kind = some op ↔ kind = (unaryWord op).kind := by
  constructor
  · intro h
    unfold unaryOp? at h
    split at h <;> cases h <;> rfl
  · rintro rfl
    cases op <;> rfl

theorem binaryOp?_eq_some {kind : Token.Kind} {op : BinaryOp} :
    binaryOp? kind = some op ↔ kind = (binaryWord op).kind := by
  constructor
  · intro h
    unfold binaryOp? at h
    split at h <;> cases h <;> rfl
  · rintro rfl
    cases op <;> rfl

theorem cons_of_unaryOp? {before : Words} (canonical : ∀ w ∈ before, w.Canonical) {op : UnaryOp}
    (h : unaryOp? (headKind before) = some op) : ∃ rest, before = unaryWord op :: rest := by
  have notEnd : (unaryWord op).kind ≠ .eof := by cases op <;> simp [unaryWord, Wording.symbol]
  obtain ⟨w, rest, rfl, kind⟩ := cons_of_headKind (unaryOp?_eq_some.1 h) notEnd
  have known := canonical w List.mem_cons_self
  refine ⟨rest, ?_⟩
  cases op <;> exact congrArg (· :: rest) (known.eq_symbol kind)

theorem cons_of_binaryOp? {before : Words} (canonical : ∀ w ∈ before, w.Canonical) {op : BinaryOp}
    (h : binaryOp? (headKind before) = some op) : ∃ rest, before = binaryWord op :: rest := by
  have notEnd : (binaryWord op).kind ≠ .eof := by cases op <;> simp [binaryWord, Wording.symbol]
  obtain ⟨w, rest, rfl, kind⟩ := cons_of_headKind (binaryOp?_eq_some.1 h) notEnd
  have known := canonical w List.mem_cons_self
  refine ⟨rest, ?_⟩
  cases op <;> exact congrArg (· :: rest) (known.eq_symbol kind)

/-! ### Expressions -/

/-- No operator of at least a given strength stands in front. -/
def Stops (least : Nat) (words : Words) : Prop :=
  ∀ op, binaryOp? (headKind words) = some op → op.strength < least

theorem stops_of_lt {least : Nat} (strong : 6 < least) (words : Words) : Stops least words := by
  intro op _
  have : op.strength ≤ 6 := by cases op <;> decide
  omega

/-- An expression with any strength asked for. -/
def Operand (before after : Words) (e : Expr) : Prop :=
  ∀ k, Expr.Derives .standard k before after e

theorem Expr.Derives.fold {op : BinaryOp} {start middle after : Words} {lhs rhs : Expr}
    (left : Expr.Derives .standard op.strength start (binaryWord op :: middle) lhs)
    (right : Expr.Derives .standard (op.strength + 1) middle after rhs) :
    Expr.Derives .standard op.strength start after (.binary op lhs rhs nowhere) := by
  rw [← level_eq_strength] at *
  exact .binary (Nat.le_refl _) left right

/-- What the readers of expressions find with some room. -/
structure FindsExprs (room : Nat) : Prop where
  expr : ∀ least before, Finds (parseExpr room least) before fun after e =>
    Expr.Derives .standard least before after e.bare ∧ Stops least after
  unary : ∀ before, Finds (parseUnary room) before fun after e => Operand before after e.bare
  folds : ∀ least m start before lhs, least ≤ m →
    Expr.Derives .standard m start before lhs.bare → Stops (m + 1) before →
    Finds (parseFolds room least lhs) before fun after e =>
      Expr.Derives .standard least start after e.bare ∧ Stops least after

theorem finds_parsePrimary {room : Nat} {before : Words}
    (inner : ∀ before, Finds (parseExpr room 1) before fun after e =>
      Expr.Derives .standard 1 before after e.bare) :
    Finds (parsePrimary room) before fun after e => Operand before after e.bare := by
  rw [parsePrimary]
  cases before with
  | nil =>
      refine finds_peek_bind fun canonical t ht => ?_
      rw [show t.kind = .eof from ht]
      exact finds_unexpected _
  | cons w rest =>
      refine finds_of_canonical fun canonical => finds_look.bind fun t words _ => ?_
      rintro ⟨rfl, rfl⟩
      have known := canonical t.wording List.mem_cons_self
      have wording : t.wording = ⟨t.kind, t.text⟩ := rfl
      split
      case h_1 kind =>
        rw [wording, kind]
        refine finds_advance_bind fun _ => ?_
        dsimp only
        split
        · exact finds_pure fun k => .int
        · exact finds_throw _
      case h_2 kind =>
        rw [wording, kind]
        refine finds_advance_bind fun _ => ?_
        exact finds_pure fun k => .bool
      case h_3 kind =>
        refine finds_expectName.bind fun callee after _ named => ?_
        rw [named]
        refine (finds_eatSymbol .lparen).bind fun isCall words _ taken => ?_
        cases isCall with
        | false =>
            obtain ⟨rfl, -⟩ := taken
            exact finds_pure fun k => .name
        | true =>
            obtain rfl : after = .symbol .lparen :: words := taken
            refine (finds_arguments inner).bind fun args close _ derived => ?_
            refine (finds_expectSymbol .rparen).bind fun _ after _ closed => finds_pure fun k => ?_
            subst closed
            rw [Expr.bare, bareArgs_eq]
            exact .of_arguments derived
      case h_4 kind =>
        rw [known.eq_symbol kind]
        refine finds_advance_bind fun _ => ?_
        refine (inner rest).bind fun e close _ derived => ?_
        refine (finds_expectSymbol .rparen).bind fun _ after _ closed => finds_pure fun k => ?_
        subst closed
        rw [Expr.bare_withSpan]
        exact .parens derived
      case h_5 => exact finds_unexpected _

theorem finds_parseUnary {room : Nat} {before : Words}
    (known : ∀ less, less + 1 = room → FindsExprs less)
    (inner : ∀ before, Finds (parseExpr room 1) before fun after e =>
      Expr.Derives .standard 1 before after e.bare) :
    Finds (parseUnary room) before fun after e => Operand before after e.bare := by
  rw [parseUnary]
  refine finds_peek_bind fun canonical t ht => ?_
  split
  case h_1 => exact finds_parsePrimary inner
  case h_2 op hop =>
    rw [ht] at hop
    obtain ⟨rest, rfl⟩ := cons_of_unaryOp? canonical hop
    cases room with
    | zero => exact finds_refuse _
    | succ room =>
        refine finds_advance_bind fun _ => ?_
        refine ((known room rfl).unary rest).bind fun operand last _ derived => ?_
        exact finds_pure fun k => .unary (derived _)

/-- The operand on the left ends in front of the operator because it is one that the operator
accepts. -/
theorem finds_parseFolds {room least m : Nat} {start before : Words} {lhs : Expr}
    (known : ∀ less, less + 1 = room → FindsExprs less) (le : least ≤ m)
    (derived : Expr.Derives .standard m start before lhs.bare) (stops : Stops (m + 1) before) :
    Finds (parseFolds room least lhs) before fun after e =>
      Expr.Derives .standard least start after e.bare ∧ Stops least after := by
  rw [parseFolds]
  refine finds_peek_bind fun canonical t ht => ?_
  have whole := derived.weaken le
  split
  case h_1 none => exact finds_pure ⟨whole, by simp [Stops, ← ht, none]⟩
  case h_2 op hop =>
    split
    case isTrue weak => exact finds_pure ⟨whole, by simp [Stops, ← ht, hop, weak]⟩
    case isFalse strong =>
      rw [ht] at hop
      have accepted : op.strength ≤ m := Nat.le_of_lt_succ (stops op hop)
      obtain ⟨rest, rfl⟩ := cons_of_binaryOp? canonical hop
      refine finds_advance_bind fun _ => ?_
      cases room with
      | zero => exact finds_refuse _
      | succ room =>
          refine ((known room rfl).expr (op.strength + 1) rest).bind fun rhs middle _ => ?_
          rintro ⟨right, ends⟩
          have folded : Expr.Derives .standard op.strength start middle
              (Expr.binary op lhs rhs (lhs.span.merge rhs.span)).bare :=
            (derived.weaken accepted).fold right
          exact (known room rfl).folds _ _ _ _ _ (Nat.le_of_not_lt strong) folded ends

theorem findsExprs_of_less {room : Nat} (known : ∀ less, less + 1 = room → FindsExprs less) :
    FindsExprs room := by
  have expr (least : Nat) (before : Words) : Finds (parseExpr room least) before fun after e =>
      Expr.Derives .standard least before after e.bare ∧ Stops least after := by
    cases room with
    | zero =>
        rw [parseExpr]
        exact finds_refuse _
    | succ room =>
        rw [parseExpr]
        refine ((known room rfl).unary before).bind fun first middle _ derived => ?_
        -- Nothing is known of the word behind, but no operator is as strong as an operand.
        have ends : Stops (max least 7 + 1) middle := stops_of_lt (by omega) middle
        exact (known room rfl).folds _ _ _ _ _ (Nat.le_max_left least 7) (derived _) ends
  constructor
  · exact expr
  · exact fun before => finds_parseUnary known fun before => (expr 1 before).mono fun _ _ h => h.1
  · intro least m start before lhs le derived stops
    exact finds_parseFolds known le derived stops

theorem findsExprs (room : Nat) : FindsExprs room := by
  induction room with
  | zero => exact findsExprs_of_less fun less h => nomatch h
  | succ room ih =>
      refine findsExprs_of_less fun less h => ?_
      cases h
      exact ih

theorem finds_parseExpr (room : Nat) (before : Words) :
    Finds (parseExpr room 1) before fun after e => Expr.Derives .standard 1 before after e.bare :=
  ((findsExprs room).expr 1 before).mono fun _ _ h => h.1

/-! ### Statements -/

theorem finds_parseCondition {room : Nat} {before : Words} :
    Finds (parseCondition room) before fun after e => ∃ inner, before = .symbol .lparen :: inner ∧
      Expr.Derives .standard 1 inner (.symbol .rparen :: after) e.bare := by
  refine (finds_expectSymbol .lparen).bind fun _ inner _ opens => ?_
  refine (finds_parseExpr room inner).bind fun e close _ derived => ?_
  refine (finds_expectSymbol .rparen).bind fun _ after _ closes => finds_pure ?_
  exact ⟨inner, opens, closes ▸ derived⟩

theorem finds_finishStmt {start : Span} {build : Span → Stmt} {before : Words} :
    Finds (finishStmt start build) before fun after s =>
      before = .symbol .semi :: after ∧ ∃ span, s = build span := by
  refine (finds_expectSymbol .semi).bind fun close after _ ends => finds_pure ?_
  exact ⟨ends, _, rfl⟩

theorem finds_finishExpr {room : Nat} {start : Span} {build : Expr → Span → Stmt}
    {before : Words} :
    Finds (parseExpr room 1 >>= fun e => finishStmt start (build e)) before fun after s =>
      ∃ e span, s = build e span ∧
        Expr.Derives .standard 1 before (.symbol .semi :: after) e.bare := by
  refine (finds_parseExpr room before).bind fun e close _ derived => finds_finishStmt.mono ?_
  rintro after s ⟨rfl, span, rfl⟩
  exact ⟨e, span, rfl, derived⟩

/-- The value of a variable. What stands in front of it may have a type or none. -/
theorem finds_letIn {room : Nat} {start : Span} {name : Name} {type : Option ValueType}
    {typed rest : Words} (typing : typed = ascription type ++ rest) :
    Finds (do
      let _ ← expectSymbol .assign
      let value ← parseExpr room 1
      finishStmt start (.letIn name type value)) rest fun after s =>
      Stmt.Derives .standard (.keyword .letIn :: .ident name.text :: typed) after s.bare := by
  refine (finds_expectSymbol .assign).bind fun _ rest _ assigned => finds_finishExpr.mono ?_
  rintro after s ⟨e, span, rfl, derived⟩
  rw [typing, assigned]
  exact .letIn derived

/-- The value that is returned, or none. -/
theorem finds_returns {room : Nat} {start : Span} {before : Words} :
    Finds (do
      let value? ← if ← atSymbol .semi then pure none else some <$> parseExpr room 1
      finishStmt start (.returns value?)) before fun after s =>
      Stmt.Derives .standard (.keyword .returns :: before) after s.bare := by
  refine (finds_atSymbol .semi).bind fun bare words _ => ?_
  rintro ⟨rfl, -⟩
  cases bare with
  | true =>
      refine finds_return.bind fun value rest _ => ?_
      rintro ⟨rfl, rfl⟩
      refine finds_finishStmt.mono ?_
      rintro after s ⟨rfl, span, rfl⟩
      exact .returns
  | false =>
      refine (finds_parseExpr room words).some.bind fun value rest _ => ?_
      rintro ⟨value, rfl, derived⟩
      refine finds_finishStmt.mono ?_
      rintro after s ⟨rfl, span, rfl⟩
      exact .returnsValue derived

theorem finds_parseSimple {room : Nat} {before : Words} :
    Finds (parseSimple room) before fun after s => Stmt.Derives .standard before after s.bare := by
  refine finds_peek_bind fun canonical start kind => ?_
  split
  case h_1 same =>
    obtain ⟨rest, rfl⟩ := cons_of_keyword canonical (kind.symm.trans same)
    refine finds_advance_bind fun _ => ?_
    refine finds_expectName.bind fun name typed _ named => ?_
    subst named
    refine (finds_eatSymbol .colon).bind fun colon words _ taken => ?_
    cases colon with
    | true =>
        refine (finds_parseType.some).bind fun type rest _ => ?_
        rintro ⟨type, rfl, spelled⟩
        exact finds_letIn (taken.trans (congrArg _ spelled))
    | false =>
        refine finds_return.bind fun type rest _ => ?_
        rintro ⟨rfl, rfl⟩
        exact finds_letIn taken.1.symm
  case h_2 same =>
    obtain ⟨rest, rfl⟩ := cons_of_keyword canonical (kind.symm.trans same)
    exact finds_advance_bind fun _ => finds_returns
  case h_3 same =>
    obtain ⟨rest, rfl⟩ := cons_of_keyword canonical (kind.symm.trans same)
    refine finds_advance_bind fun _ => ?_
    refine finds_parseCondition.bind fun cond words _ => ?_
    rintro ⟨inner, rfl, derived⟩
    refine finds_finishStmt.mono ?_
    rintro after s ⟨rfl, span, rfl⟩
    exact .require derived
  case h_4 =>
    refine finds_get.bind fun s words' _ => ?_
    rintro ⟨rfl, here⟩
    split
    case isTrue second =>
      refine finds_expectName.bind fun target rest _ named => ?_
      subst named
      have assigned : headKind rest = .symbol .assign := by
        rw [← second.2, s.secondKind_eq, here]
        rfl
      obtain ⟨rest, rfl⟩ := cons_of_symbol (fun w mem => canonical w (.tail _ mem)) assigned
      refine finds_advance_bind fun _ => ?_
      refine finds_finishExpr.mono ?_
      rintro after s ⟨e, span, rfl, derived⟩
      exact .assign derived
    case isFalse =>
      refine finds_finishExpr.mono ?_
      rintro after s ⟨e, span, rfl, derived⟩
      exact .eval derived

/-- What the readers of blocks and conditionals find with some room. -/
structure FindsNested (room : Nat) : Prop where
  block : ∀ before, Finds (parseBlock room) before fun after b =>
    Block.Derives .standard before after b.bare
  chained : ∀ rest, Finds (parseIf room) (.keyword .ifThen :: rest) fun after s =>
    Stmt.Derives .standard (.keyword .ifThen :: rest) after s.bare

theorem finds_parseStmt {room : Nat} (known : FindsNested room) (before : Words) :
    Finds (parseStmt room) before fun after s => Stmt.Derives .standard before after s.bare := by
  rw [parseStmt]
  refine finds_peek_bind fun canonical start kind => ?_
  split
  case h_1 same =>
    obtain ⟨rest, rfl⟩ := cons_of_keyword canonical (kind.symm.trans same)
    exact known.chained rest
  case h_2 same =>
    obtain ⟨rest, rfl⟩ := cons_of_keyword canonical (kind.symm.trans same)
    refine finds_advance_bind fun _ => ?_
    refine finds_parseCondition.bind fun cond words _ => ?_
    rintro ⟨inner, rfl, condition⟩
    refine (known.block words).bind fun body after _ derived => finds_pure ?_
    cases body
    cases derived with
    | mk stmts => exact .whileDo condition stmts
  case h_3 => exact finds_parseSimple

theorem finds_parseBlock {room : Nat} (known : FindsNested room) (before : Words) :
    Finds (parseBlock (room + 1)) before fun after b =>
      Block.Derives .standard before after b.bare := by
  rw [parseBlock]
  refine (finds_expectSymbol .lbrace).bind fun _ inner _ opens => ?_
  refine (finds_untilBrace (finds_parseStmt known)).bind fun stmts close _ derived => ?_
  refine (finds_expectSymbol .rbrace).bind fun _ after _ closes => finds_pure ?_
  subst opens closes
  rw [Block.bare, bareStmts_eq]
  exact .mk derived

theorem finds_parseIf {room : Nat} (known : FindsNested room) (rest : Words) :
    Finds (parseIf (room + 1)) (.keyword .ifThen :: rest) fun after s =>
      Stmt.Derives .standard (.keyword .ifThen :: rest) after s.bare := by
  rw [parseIf]
  refine finds_advance_bind fun start => ?_
  refine finds_parseCondition.bind fun cond words _ => ?_
  rintro ⟨inner, rfl, condition⟩
  refine (known.block words).bind fun yes last _ derivedYes => ?_
  obtain ⟨stmts⟩ := yes
  cases derivedYes with
  | mk derivedYes =>
    refine (finds_eatKeyword .elseThen).bind fun more words _ taken => ?_
    cases more with
    | false =>
        obtain ⟨rfl, -⟩ := taken
        exact finds_pure (.ifThen condition derivedYes)
    | true =>
        subst taken
        refine finds_peek_bind fun canonical t kind => ?_
        split
        case isTrue same =>
          obtain ⟨other, rfl⟩ := cons_of_keyword canonical (kind.symm.trans same)
          refine (known.chained other).bind fun nested after _ derived => ?_
          refine finds_return.bind fun no _ _ => ?_
          rintro ⟨rfl, rfl⟩
          exact finds_pure (.elseIf condition derivedYes derived)
        case isFalse =>
          refine (known.block words).bind fun no after _ derivedNo => finds_pure ?_
          cases no
          cases derivedNo with
          | mk derivedNo => exact .ifElse condition derivedYes derivedNo

theorem findsNested (room : Nat) : FindsNested room := by
  induction room with
  | zero =>
      constructor
      · intro before
        rw [parseBlock]
        exact finds_refuse _
      · intro rest
        rw [parseIf]
        exact finds_refuse _
  | succ room ih => exact ⟨finds_parseBlock ih, finds_parseIf ih⟩

/-! ### Declarations -/

theorem finds_parseStorage {rest : Words} :
    Finds parseStorage (.keyword .storage :: rest) fun after d =>
      StorageDecl.Derives (.keyword .storage :: rest) after d.bare := by
  refine finds_advance_bind fun start => ?_
  refine finds_expectName.bind fun name _ _ named => ?_
  refine (finds_expectSymbol .colon).bind fun _ _ _ typed => ?_
  refine finds_parseType.bind fun type _ _ spelled => ?_
  refine (finds_expectSymbol .semi).bind fun close after _ ends => finds_pure ?_
  subst named typed spelled ends
  exact .mk

theorem finds_parseParam (before : Words) :
    Finds parseParam before fun after x => Param.Derives before after x.bare := by
  refine finds_expectName.bind fun name _ _ named => ?_
  refine (finds_expectSymbol .colon).bind fun _ _ _ typed => ?_
  refine finds_parseType.bind fun type after _ spelled => finds_pure ?_
  subst named typed spelled
  exact .mk

theorem finds_parseModifiersAux (rounds : Nat) (flags : Bool × Bool) {before : Words} :
    Finds (parseModifiersAux rounds flags) before fun after result => ∃ modifiers : List Modifier,
      before = modifiers.map Modifier.word ++ after ∧ result = Modifier.after modifiers flags := by
  induction rounds generalizing flags before with
  | zero => exact finds_pure ⟨[], rfl, rfl⟩
  | succ rounds ih =>
      obtain ⟨isPublic, isView⟩ := flags
      -- Each word changes the flags and leaves the rest to the next round.
      refine finds_peek_bind fun canonical t kind => ?_
      have step (m : Modifier) {rest : Words} {isPublic' isView' : Bool}
          (taken : before = m.word :: rest)
          (counts : Modifier.after [m] (isPublic, isView) = (isPublic', isView')) :
          Finds (advance >>= fun _ => parseModifiersAux rounds (isPublic', isView')) before
            fun after result => ∃ modifiers : List Modifier,
              before = modifiers.map Modifier.word ++ after ∧
                result = Modifier.after modifiers (isPublic, isView) := by
        subst taken
        refine finds_advance_bind fun _ => ?_
        refine (ih _).mono ?_
        rintro after result ⟨modifiers, rfl, rfl⟩
        exact ⟨m :: modifiers, rfl, by rw [← counts]; rfl⟩
      split
      case h_1 same =>
        obtain ⟨rest, taken⟩ := cons_of_keyword canonical (kind.symm.trans same)
        exact step .publicly taken rfl
      case h_2 same =>
        obtain ⟨rest, taken⟩ := cons_of_keyword canonical (kind.symm.trans same)
        exact step .privately taken rfl
      case h_3 same =>
        obtain ⟨rest, taken⟩ := cons_of_keyword canonical (kind.symm.trans same)
        exact step .view taken rfl
      case h_4 => exact finds_pure ⟨[], rfl, rfl⟩

theorem finds_parseModifiers {before : Words} :
    Finds parseModifiers before fun after result => ∃ modifiers : List Modifier,
      before = modifiers.map Modifier.word ++ after ∧
        result = (Modifier.isPublic modifiers, Modifier.isView modifiers) := by
  refine finds_get.bind fun s words _ => ?_
  rintro ⟨rfl, -⟩
  refine (finds_parseModifiersAux _ _).mono ?_
  rintro after result ⟨modifiers, rfl, rfl⟩
  exact ⟨modifiers, rfl, Modifier.after_eq modifiers⟩

theorem finds_parseFunction {rest : Words} :
    Finds parseFunction (.keyword .function :: rest) fun after f =>
      FunctionDecl.Derives .standard (.keyword .function :: rest) after f.bare := by
  refine finds_advance_bind fun start => ?_
  refine finds_expectName.bind fun name _ _ named => ?_
  refine (finds_expectSymbol .lparen).bind fun _ inner _ opens => ?_
  refine (finds_arguments finds_parseParam).bind fun params _ _ derived => ?_
  refine (finds_expectSymbol .rparen).bind fun _ words _ closes => ?_
  refine finds_parseModifiers.bind fun flags behind _ => ?_
  rintro ⟨modifiers, rfl, rfl⟩
  subst named opens closes
  have body {result : Option ValueType} {middle : Words}
      (typing : behind = arrow result ++ middle) :
      Finds (do
        let body ← parseBlock maxDepth
        return FunctionDecl.mk name params result (Modifier.isPublic modifiers)
          (Modifier.isView modifiers) body (start.span.merge body.span)) middle fun after f =>
        FunctionDecl.Derives .standard
          (.keyword .function :: .ident name.text :: .symbol .lparen :: inner) after f.bare := by
    subst typing
    refine ((findsNested maxDepth).block middle).bind fun body after _ block => finds_pure ?_
    exact .mk derived block
  refine (finds_eatSymbol .arrow).bind fun typed words _ taken => ?_
  cases typed with
  | true =>
      refine finds_parseType.some.bind fun result _ _ => ?_
      rintro ⟨type, rfl, spelled⟩
      exact body (taken.trans (congrArg _ spelled))
  | false =>
      refine finds_return.bind fun result _ _ => ?_
      rintro ⟨rfl, rfl⟩
      exact body taken.1.symm

theorem finds_parseDeclsAux (rounds : Nat) (storage : List StorageDecl)
    (functions : List FunctionDecl) {before : Words} :
    Finds (parseDeclsAux rounds storage functions) before fun after decls =>
      ∃ storage' functions',
        decls = (storage.reverse ++ storage', functions.reverse ++ functions') ∧
        Members .standard before after (storage'.map StorageDecl.bare)
          (functions'.map FunctionDecl.bare) := by
  have finished {before : Words} : ∃ storage' functions',
      (storage.reverse, functions.reverse) =
        (storage.reverse ++ storage', functions.reverse ++ functions') ∧
      Members .standard before before (storage'.map StorageDecl.bare)
        (functions'.map FunctionDecl.bare) :=
    ⟨[], [], by simp, .nil⟩
  induction rounds generalizing storage functions before with
  | zero => exact finds_pure finished
  | succ rounds ih =>
      refine finds_peek_bind fun canonical t kind => ?_
      split
      case h_1 same =>
        obtain ⟨rest, rfl⟩ := cons_of_keyword canonical (kind.symm.trans same)
        refine finds_parseStorage.bind fun d middle _ declared => ?_
        refine (ih (d :: storage) functions ⟨[], [], by simp, .nil⟩).mono ?_
        rintro after decls ⟨storage', functions', rfl, members⟩
        exact ⟨d :: storage', functions', by simp, .storage declared members⟩
      case h_2 same =>
        obtain ⟨rest, rfl⟩ := cons_of_keyword canonical (kind.symm.trans same)
        refine finds_parseFunction.bind fun f middle _ declared => ?_
        refine (ih storage (f :: functions) ⟨[], [], by simp, .nil⟩).mono ?_
        rintro after decls ⟨storage', functions', rfl, members⟩
        exact ⟨storage', f :: functions', by simp, .function declared members⟩
      case h_3 => exact finds_pure finished
      case h_4 => exact finds_unexpected _

theorem finds_parseContract {words : Words} :
    Finds parseContract words fun _ c => Contract.Derives .standard words c.bare := by
  refine (finds_expectKeyword .contract _).bind fun start _ _ begins => ?_
  refine finds_expectName.bind fun name _ _ named => ?_
  refine (finds_expectSymbol .lbrace).bind fun _ inner _ opens => ?_
  refine finds_get.bind fun s words' _ => ?_
  rintro ⟨rfl, -⟩
  refine (finds_parseDeclsAux _ [] []).bind fun decls last _ => ?_
  rintro ⟨storage, functions, rfl, members⟩
  refine (finds_expectSymbol .rbrace).bind fun close rest _ closes => ?_
  refine finds_peek_bind fun canonical t kind => ?_
  split
  case isTrue ends =>
    have none : rest = [] := eq_nil_of_eof canonical (kind.symm.trans ends)
    subst begins named opens closes none
    exact finds_pure (.mk members)
  case isFalse => exact finds_refuse _

end Workbench.Syntax
