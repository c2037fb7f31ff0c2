import Workbench.Syntax.Parser

/-!
# What a reader makes of given words

`Reads p before after good` says that the reader `p` accepts every stream that starts with the words
`before`, leaves the words `after`, and returns something `good`. Where the words stand does not
matter to a reader, so only kind and text of a token count.
-/

namespace Workbench.Syntax

/-- What a token says, without its place. -/
structure Wording where
  kind : Token.Kind
  text : String
  deriving DecidableEq, Repr

namespace Wording

/-- A symbol of the language. -/
def symbol (s : Symbol) : Wording := ⟨.symbol s, String.ofList s.chars⟩

/-- A reserved word. -/
def keyword (k : Keyword) : Wording := ⟨.keyword k, k.text⟩

/-- An identifier. -/
def ident (text : String) : Wording := ⟨.ident, text⟩

end Wording

@[simp] theorem Wording.kind_symbol (s : Symbol) : (symbol s).kind = .symbol s :=
  rfl

@[simp] theorem Wording.kind_keyword (k : Keyword) : (keyword k).kind = .keyword k :=
  rfl

@[simp] theorem Wording.kind_ident (text : String) : (ident text).kind = .ident :=
  rfl

def Token.wording (t : Token) : Wording := ⟨t.kind, t.text⟩

def Stream.wordings (s : Stream) : List Wording := s.rest.map Token.wording

/-- The kind of the first word; without one the input is at its end. -/
def headKind (words : List Wording) : Token.Kind :=
  (words.head?.map Wording.kind).getD .eof

@[simp] theorem headKind_cons (w : Wording) (rest : List Wording) :
    headKind (w :: rest) = w.kind :=
  rfl

namespace Stream

theorem kind_peek (s : Stream) : s.peek.kind = headKind s.wordings := by
  unfold peek wordings headKind
  cases s.rest with
  | nil => rfl
  | cons t rest => rfl

theorem wordings_advance (s : Stream) : s.advance.wordings = s.wordings.tail := by
  simp [wordings, advance, List.map_tail]

theorem wording_peek {s : Stream} {w : Wording} {rest : List Wording}
    (h : s.wordings = w :: rest) : s.peek.wording = w := by
  unfold wordings at h
  unfold peek
  cases hs : s.rest with
  | nil => simp [hs] at h
  | cons t ts =>
      rw [hs, List.map_cons, List.cons.injEq] at h
      exact h.1

theorem length_rest (s : Stream) : s.rest.length = s.wordings.length := by
  simp [wordings]

end Stream

namespace Parser

variable {α β : Type} {before middle after rest : List Wording} {w : Wording}

/-- The reader gets from the words `before` to the words `after` with something `good`. -/
def Reads (p : Parser α) (before after : List Wording) (good : α → Prop) : Prop :=
  ∀ s, s.wordings = before → ∃ a s', p.run s = .ok (a, s') ∧ s'.wordings = after ∧ good a

theorem reads_pure {good : α → Prop} {a : α} (h : good a) : Reads (pure a) before before good :=
  fun s hs => ⟨a, s, rfl, hs, h⟩

theorem Reads.bind {p : Parser α} {f : α → Parser β} {good : α → Prop} {best : β → Prop}
    (first : Reads p before middle good) (then_ : ∀ a, good a → Reads (f a) middle after best) :
    Reads (p >>= f) before after best := by
  intro s hs
  obtain ⟨a, s', run, hs', ha⟩ := first s hs
  obtain ⟨b, s'', run', hs'', hb⟩ := then_ a ha s' hs'
  refine ⟨b, s'', ?_, hs'', hb⟩
  rw [StateT.run_bind, run]
  exact run'

theorem Reads.mono {p : Parser α} {good best : α → Prop} (h : Reads p before after good)
    (le : ∀ a, good a → best a) : Reads p before after best := by
  intro s hs
  obtain ⟨a, s', run, hs', ha⟩ := h s hs
  exact ⟨a, s', run, hs', le a ha⟩

theorem Reads.map {p : Parser α} {f : α → β} {good : α → Prop} {best : β → Prop}
    (h : Reads p before after good) (le : ∀ a, good a → best (f a)) :
    Reads (f <$> p) before after best := by
  rw [map_eq_pure_bind]
  exact h.bind fun a ha => reads_pure (le a ha)

/-! ### Single words -/

theorem reads_peek : Reads peek before before (fun t => t.kind = headKind before) := by
  intro s hs
  exact ⟨s.peek, s, rfl, hs, s.kind_peek.trans (congrArg headKind hs)⟩

theorem reads_look : Reads peek (w :: rest) (w :: rest) (fun t => t.wording = w) :=
  fun s hs => ⟨s.peek, s, rfl, hs, Stream.wording_peek hs⟩

theorem reads_advance : Reads advance (w :: rest) rest (fun t => t.wording = w) := by
  intro s hs
  refine ⟨s.peek, s.advance, rfl, ?_, Stream.wording_peek hs⟩
  rw [s.wordings_advance, hs]
  rfl

theorem reads_eat (kind : Token.Kind) (h : w.kind = kind) :
    Reads (eat kind) (w :: rest) rest (· = true) := by
  refine reads_peek.bind fun t ht => ?_
  rw [if_pos (ht.trans h)]
  exact reads_advance.bind fun _ _ => reads_pure rfl

theorem reads_eat_other (kind : Token.Kind) (h : headKind before ≠ kind) :
    Reads (eat kind) before before (· = false) := by
  refine reads_peek.bind fun t ht => ?_
  rw [if_neg (ht ▸ h)]
  exact reads_pure rfl

theorem reads_expect (kind : Token.Kind) (what : String) (h : w.kind = kind) :
    Reads (expect kind what) (w :: rest) rest (fun t => t.wording = w) := by
  refine reads_peek.bind fun t ht => ?_
  rw [if_pos (ht.trans h)]
  exact reads_advance

theorem reads_expectSymbol (s : Symbol) :
    Reads (expectSymbol s) (.symbol s :: rest) rest (fun t => t.wording = .symbol s) :=
  reads_expect _ _ rfl

theorem reads_expectName (text : String) :
    Reads expectName (.ident text :: rest) rest (fun name => name.text = text) := by
  refine (reads_expect _ _ rfl).bind fun t ht => reads_pure ?_
  exact congrArg Wording.text ht

theorem reads_atSymbol (s : Symbol) :
    Reads (atSymbol s) before before (· = decide (headKind before = .symbol s)) := by
  refine reads_peek.bind fun t ht => reads_pure ?_
  rw [ht]

theorem reads_get : Reads get before before (fun s => s.wordings = before) :=
  fun s hs => ⟨s, s, rfl, hs, hs⟩

/-! ### Operators -/

/-- Reading ends in front of a word that is no operator of the least strength. -/
theorem reads_folds_end (room least : Nat) (lhs : Expr)
    (h : ∀ op ∈ binaryOp? (headKind after), op.strength < least) :
    Reads (parseFolds room least lhs) after after (· = lhs) := by
  rw [parseFolds]
  refine reads_peek.bind fun t ht => ?_
  rw [ht]
  cases hop : binaryOp? (headKind after) with
  | none => exact reads_pure rfl
  | some op =>
      have := h op hop
      simp only [if_pos this]
      exact reads_pure rfl

end Parser

end Workbench.Syntax
