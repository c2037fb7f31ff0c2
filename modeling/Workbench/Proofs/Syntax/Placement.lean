import Workbench.Proofs.Syntax.Cutting

/-!
# The places of lexemes

The lexemes of a text stand one behind the other and make up the text. Tokens and diagnostics take
their places from them, so a token stands where its text is, and no two places overlap.
-/

namespace Workbench.Source.Span

/-- A byte lies in a range. -/
def Covers (span : Span) (i : Nat) : Prop :=
  span.start ≤ i ∧ i < span.stop

/-- A range ends before another starts. -/
def Before (a b : Span) : Prop :=
  a.stop ≤ b.start

/-- Two ranges do not overlap. -/
def Apart (a b : Span) : Prop :=
  a.Before b ∨ b.Before a

instance : Std.Symm Apart :=
  ⟨fun _ _ => Or.symm⟩

theorem Within.covers {a b : Span} (within : a.Within b) {i : Nat} (h : a.Covers i) : b.Covers i :=
  ⟨within.1.trans h.1, h.2.trans_le within.2⟩

theorem Within.before {a b c d : Span} (hb : b.Within a) (hd : d.Within c) (h : a.Before c) :
    b.Before d :=
  hb.2.trans (h.trans hd.1)

theorem Within.apart {a b c d : Span} (hb : b.Within a) (hd : d.Within c) (h : a.Apart c) :
    b.Apart d :=
  h.imp (Within.before hb hd) (Within.before hd hb)

end Workbench.Source.Span

namespace Workbench.Syntax

open Source (Span Diagnostic)

/-! ### Sizes of texts -/

theorem foldl_utf8Size (cs : List Char) (n : Nat) :
    cs.foldl (fun n c => n + c.utf8Size) n = n + utf8Length cs := by
  unfold utf8Length
  induction cs generalizing n with
  | nil => rfl
  | cons c cs ih => rw [List.foldl_cons, List.foldl_cons, ih, ih (0 + _)]; omega

@[simp]
theorem utf8Length_nil : utf8Length [] = 0 :=
  rfl

@[simp]
theorem utf8Length_cons (c : Char) (cs : List Char) :
    utf8Length (c :: cs) = c.utf8Size + utf8Length cs := by
  rw [utf8Length, List.foldl_cons, foldl_utf8Size, Nat.zero_add]

@[simp]
theorem utf8Length_append (front rest : List Char) :
    utf8Length (front ++ rest) = utf8Length front + utf8Length rest := by
  induction front <;> simp_all [Nat.add_assoc]

theorem utf8Length_pos {cs : List Char} (some : cs ≠ []) : 0 < utf8Length cs := by
  cases cs with
  | nil => exact absurd rfl some
  | cons c cs => have := c.utf8Size_pos; simp; omega

/-- The size of a text is that of its characters together. -/
theorem utf8ByteSize_ofList (cs : List Char) : (String.ofList cs).utf8ByteSize = utf8Length cs := by
  induction cs with
  | nil => rfl
  | cons c cs ih =>
      have first : (String.ofList [c]).utf8ByteSize = c.utf8Size := by
        rw [← String.singleton_eq_ofList, String.utf8ByteSize_singleton]
      rw [← List.singleton_append, String.ofList_append, String.utf8ByteSize_append, first, ih]
      simp

/-- A text stands in a source between two others, in a range of its own. -/
structure Stands (source : String) (span : Span) (front text rest : String) : Prop where
  whole : source = front ++ text ++ rest
  start : span.start = front.utf8ByteSize
  stop : span.stop = (front ++ text).utf8ByteSize

theorem Stands.of_chars {source : String} {front text rest : List Char}
    (whole : source.toList = front ++ (text ++ rest)) :
    Stands source ⟨utf8Length front, utf8Length front + utf8Length text⟩ (String.ofList front)
      (String.ofList text) (String.ofList rest) := by
  refine ⟨?_, (utf8ByteSize_ofList front).symm, ?_⟩
  · rw [← String.ofList_append, ← String.ofList_append, List.append_assoc, ← whole,
      String.ofList_toList]
  · rw [← String.ofList_append, utf8ByteSize_ofList, utf8Length_append]

/-! ### Pieces of a text -/

/-- The characters of lexemes that stand one behind the other. -/
def charsOf (pieces : List Lexeme) : List Char :=
  pieces.flatMap Lexeme.chars

@[simp]
theorem charsOf_append (front rest : List Lexeme) :
    charsOf (front ++ rest) = charsOf front ++ charsOf rest :=
  List.flatMap_append

@[simp]
theorem charsOf_cons (piece : Lexeme) (rest : List Lexeme) :
    charsOf (piece :: rest) = piece.chars ++ charsOf rest :=
  List.flatMap_cons

/-- Lexemes are what a text is cut into: each is cut off the front of what stands behind the one
before. -/
inductive Cuts : List Char → List Lexeme → Prop
  | nil : Cuts [] []
  | cons {input rest : List Char} {piece : Lexeme} {pieces : List Lexeme}
      (cut : Cut input piece rest) (cuts : Cuts rest pieces) : Cuts input (piece :: pieces)

theorem cuts_lexemes (input : List Char) : Cuts input (lexemes input) := by
  induction h : input.length using Nat.strongRecOn generalizing input with
  | ind n ih =>
      cases input with
      | nil => rw [lexemes_nil]; exact .nil
      | cons c cs =>
          have shorter := Lexeme.length_next_lt c cs
          rw [lexemes_cons]
          exact .cons (cut_next c cs) (ih _ (h ▸ shorter) _ rfl)

/-- Nothing is lost. -/
theorem Cuts.whole {input : List Char} {pieces : List Lexeme} (h : Cuts input pieces) :
    input = charsOf pieces := by
  induction h with
  | nil => rfl
  | cons cut cuts ih => rw [charsOf_cons, ← ih, cut.whole]

theorem Cuts.drop {input : List Char} {before after : List Lexeme}
    (h : Cuts input (before ++ after)) : Cuts (charsOf after) after := by
  induction before generalizing input with
  | nil => rwa [List.nil_append, ← h.whole] at *
  | cons piece before ih => cases h with | cons cut cuts => exact ih cuts

theorem Cuts.cut {input : List Char} {piece : Lexeme} {before after : List Lexeme}
    (h : Cuts input (before ++ piece :: after)) :
    Cut (piece.chars ++ charsOf after) piece (charsOf after) := by
  have rest := h.drop
  generalize whole : charsOf (piece :: after) = input at rest
  cases rest with
  | cons cut cuts =>
      rw [← whole, cuts.whole] at cut
      exact cut

/-! ### Places -/

/-- A lexeme with the offset at which it starts. -/
structure Placed where
  offset : Nat
  piece : Lexeme

namespace Placed

variable (p : Placed)

def span : Span :=
  ⟨p.offset, p.offset + utf8Length p.piece.chars⟩

/-- The token that a lexeme stands for, if any. -/
def tokens : List Token :=
  match p.piece with
  | .token kind cs => [⟨kind, String.ofList cs, p.span⟩]
  | _ => []

/-- What is refused of a lexeme. -/
def diagnostics : List Diagnostic :=
  match p.piece with
  | .malformedNumber _ => [LexicalProblem.malformedInteger.diagnostic p.span]
  | .stray c => strayDiagnostics p.offset c
  | _ => []

end Placed

/-- Lexemes one behind the other, the first at an offset. -/
def placed (offset : Nat) : List Lexeme → List Placed
  | [] => []
  | piece :: pieces => ⟨offset, piece⟩ :: placed (offset + utf8Length piece.chars) pieces

theorem foldl_add (pieces : List Lexeme) (state : Lexed.Placing) :
    pieces.foldl Lexed.Placing.add state =
      ⟨((placed state.offset pieces).flatMap Placed.tokens).reverse ++ state.tokens,
        ((placed state.offset pieces).flatMap Placed.diagnostics).reverse ++ state.diagnostics,
        state.offset + utf8Length (charsOf pieces)⟩ := by
  induction pieces generalizing state with
  | nil => rfl
  | cons piece pieces ih =>
      rw [List.foldl_cons, ih]
      cases piece <;>
        simp [Lexed.Placing.add, placed, Placed.tokens, Placed.diagnostics, Placed.span,
          Lexeme.chars, Nat.add_assoc]

/-- The lexemes of a text in their places. -/
def placesOf (source : String) : List Placed :=
  placed 0 (lexemes source.toList)

theorem utf8Length_charsOf_lexemes (source : String) :
    utf8Length (charsOf (lexemes source.toList)) = source.utf8ByteSize := by
  rw [← (cuts_lexemes source.toList).whole, ← utf8ByteSize_ofList, String.ofList_toList]

theorem lex_eq (source : String) :
    lex source = ⟨(placesOf source).flatMap Placed.tokens, source.utf8ByteSize,
      (placesOf source).flatMap Placed.diagnostics⟩ := by
  simp [lex, Lexed.ofLexemes, foldl_add, placesOf, utf8Length_charsOf_lexemes]

theorem placed_append (offset : Nat) (before after : List Lexeme) :
    placed offset (before ++ after) =
      placed offset before ++ placed (offset + utf8Length (charsOf before)) after := by
  induction before generalizing offset with
  | nil => rfl
  | cons piece before ih => simp [placed, ih, Nat.add_assoc]

theorem mem_placed_iff {offset : Nat} {pieces : List Lexeme} {p : Placed} :
    p ∈ placed offset pieces ↔ ∃ before after, pieces = before ++ p.piece :: after ∧
      p.offset = offset + utf8Length (charsOf before) := by
  constructor
  · intro known
    induction pieces generalizing offset with
    | nil => cases known
    | cons piece pieces ih =>
        rcases List.mem_cons.1 known with rfl | later
        · exact ⟨[], pieces, rfl, rfl⟩
        · obtain ⟨before, after, rfl, start⟩ := ih later
          exact ⟨piece :: before, after, rfl, by rw [start]; simp [Nat.add_assoc]⟩
  · rintro ⟨before, after, rfl, start⟩
    rw [placed_append, ← start]
    exact List.mem_append_right _ List.mem_cons_self

/-- Lexemes stand within what they make up. -/
theorem within_of_mem_placed {offset : Nat} {pieces : List Lexeme} {p : Placed}
    (known : p ∈ placed offset pieces) :
    p.span.Within ⟨offset, offset + utf8Length (charsOf pieces)⟩ := by
  obtain ⟨before, after, rfl, start⟩ := mem_placed_iff.1 known
  simp [Span.Within, Placed.span, start]
  omega

theorem pairwise_placed (offset : Nat) (pieces : List Lexeme) :
    (placed offset pieces).Pairwise fun p q => p.span.Before q.span := by
  induction pieces generalizing offset with
  | nil => exact .nil
  | cons piece pieces ih => exact .cons (fun q later => (within_of_mem_placed later).1) (ih _)

/-- Of two lexemes in their places one stands in front of the other. -/
theorem apart_of_mem_placed {offset : Nat} {pieces : List Lexeme} {p q : Placed}
    (hp : p ∈ placed offset pieces) (hq : q ∈ placed offset pieces) (differ : p ≠ q) :
    p.span.Apart q.span := by
  have apart : Std.Symm fun p q : Placed => p.span.Apart q.span := ⟨fun _ _ => Or.symm⟩
  have ordered : (placed offset pieces).Pairwise fun p q => p.span.Apart q.span :=
    (pairwise_placed offset pieces).imp fun before => .inl before
  exact ordered.forall hp hq differ

theorem within_of_mem_placesOf {source : String} {p : Placed} (known : p ∈ placesOf source) :
    p.span.Within ⟨0, source.utf8ByteSize⟩ := by
  have within := within_of_mem_placed known
  rwa [utf8Length_charsOf_lexemes, Nat.zero_add] at within

/-- A lexeme of a text is cut off what stands behind the lexemes in front of it. -/
theorem cut_of_mem_placesOf {source : String} {p : Placed} (known : p ∈ placesOf source) :
    ∃ front rest, source.toList = front ++ (p.piece.chars ++ rest) ∧
      p.offset = utf8Length front ∧ Cut (p.piece.chars ++ rest) p.piece rest := by
  obtain ⟨before, after, pieces, start⟩ := mem_placed_iff.1 known
  have cuts := cuts_lexemes source.toList
  rw [pieces] at cuts
  refine ⟨charsOf before, charsOf after, ?_, by rw [start, Nat.zero_add], cuts.cut⟩
  rw [cuts.whole, charsOf_append, charsOf_cons]

/-! ### Bytes that are covered -/

namespace Placed

/-- The ranges of the token or of the diagnostics of a lexeme. -/
def spans (p : Placed) : List Span :=
  match p.piece with
  | .blank _ | .comment _ => []
  | .token _ _ | .malformedNumber _ => [p.span]
  | .stray c => (List.range c.utf8Size).map fun i => ⟨p.offset + i, p.offset + i + 1⟩

theorem spans_eq (p : Placed) :
    p.spans = p.tokens.map (·.span) ++ p.diagnostics.map (·.span) := by
  unfold spans tokens diagnostics
  cases p.piece <;>
    simp [strayDiagnostics, LexicalProblem.diagnostic, Function.comp_def]

theorem within_of_mem_spans {p : Placed} {s : Span} (known : s ∈ p.spans) : s.Within p.span := by
  unfold spans at known
  cases piece : p.piece with
  | stray c =>
      simp only [piece, List.mem_map, List.mem_range] at known
      obtain ⟨i, less, rfl⟩ := known
      have size : p.span.stop = p.offset + c.utf8Size := by simp [span, piece, Lexeme.chars]
      have start : p.span.start = p.offset := rfl
      constructor <;> simp only <;> omega
  | _ => simp_all [Span.Within]

theorem start_lt_of_mem_spans {p : Placed} (some : p.piece.chars ≠ []) {s : Span}
    (known : s ∈ p.spans) : s.start < s.stop := by
  have pos := utf8Length_pos some
  unfold spans at known
  cases piece : p.piece with
  | stray c =>
      simp only [piece, List.mem_map, List.mem_range] at known
      obtain ⟨i, less, rfl⟩ := known
      exact Nat.lt_succ_self _
  | _ => simp_all [span]

theorem pairwise_spans (p : Placed) : p.spans.Pairwise Span.Before := by
  unfold spans
  cases p.piece with
  | stray c =>
      rw [List.pairwise_map]
      apply List.pairwise_lt_range.imp
      intro i j less
      show p.offset + i + 1 ≤ p.offset + j
      omega
  | _ => simp

/-- All bytes of a lexeme that is not skipped are in some of its ranges, and none of one that is. -/
theorem covers_iff (p : Placed) (i : Nat) :
    (∃ s ∈ p.spans, s.Covers i) ↔ p.piece.isSkipped = false ∧ p.span.Covers i := by
  constructor
  · rintro ⟨s, known, covers⟩
    refine ⟨?_, (within_of_mem_spans known).covers covers⟩
    unfold spans at known
    cases piece : p.piece <;> simp_all [Lexeme.isSkipped]
  · rintro ⟨loud, covers⟩
    unfold spans
    cases piece : p.piece with
    | blank c => simp [piece, Lexeme.isSkipped] at loud
    | comment cs => simp [piece, Lexeme.isSkipped] at loud
    | token kind cs => exact ⟨p.span, by simp, covers⟩
    | malformedNumber cs => exact ⟨p.span, by simp, covers⟩
    | stray c =>
        have size : p.span.stop = p.offset + c.utf8Size := by simp [span, piece, Lexeme.chars]
        have start : p.span.start = p.offset := rfl
        obtain ⟨low, high⟩ := covers
        refine ⟨⟨i, i + 1⟩, ?_, Nat.le_refl i, Nat.lt_succ_self i⟩
        simp only [List.mem_map, List.mem_range]
        exact ⟨i - p.offset, by omega, by congr 1 <;> omega⟩

/-- What a diagnostic of a lexeme is about: all of a malformed number, or one byte of a stray
character. -/
theorem mem_diagnostics_iff {p : Placed} {d : Diagnostic} :
    d ∈ p.diagnostics ↔
      (∃ word, p.piece = .malformedNumber word ∧
        d = LexicalProblem.malformedInteger.diagnostic p.span) ∨
      ∃ c, p.piece = .stray c ∧ d ∈ strayDiagnostics p.offset c := by
  unfold diagnostics
  cases p.piece <;> simp

theorem mem_strayDiagnostics_iff {offset : Nat} {c : Char} {d : Diagnostic} :
    d ∈ strayDiagnostics offset c ↔ ∃ i < c.utf8Size,
      d = (LexicalProblem.unexpectedCharacter
        (if c.utf8Size == 1 then c.toString else "?")).diagnostic ⟨offset + i, offset + i + 1⟩ := by
  unfold strayDiagnostics
  simp only [List.mem_map, List.mem_range]
  exact exists_congr fun i => and_congr_right fun _ => eq_comm

theorem mem_tokens_iff {p : Placed} {t : Token} :
    t ∈ p.tokens ↔ p.piece = .token t.kind t.text.toList ∧ t.span = p.span := by
  unfold tokens
  cases piece : p.piece with
  | token kind cs =>
      constructor
      · intro known
        obtain rfl := List.mem_singleton.1 known
        simp
      · rintro ⟨same, span⟩
        cases t
        simp_all
  | _ => simp

end Placed

/-- Ranges of lexemes come in the order of the lexemes. -/
theorem pairwise_flatMap_placesOf (source : String) {f : Placed → List Span}
    (some : ∀ p, (f p).Sublist p.spans) : ((placesOf source).flatMap f).Pairwise Span.Before := by
  rw [List.pairwise_flatMap]
  refine ⟨fun p _ => p.pairwise_spans.sublist (some p), ?_⟩
  apply (pairwise_placed 0 _).imp
  intro p q before s hs s' hs'
  exact Span.Within.before (Placed.within_of_mem_spans ((some p).subset hs))
    (Placed.within_of_mem_spans ((some q).subset hs')) before

end Workbench.Syntax
