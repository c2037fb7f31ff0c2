import Mathlib
import Workbench.Syntax.Lexeme
import Workbench.Proofs.Syntax.Reads

/-!
# Spelled words

A text in which each word is followed by a space is read back as these words, whichever words stand
beside them.
-/

namespace Workbench.Syntax

open Source (Span Diagnostic)

/-- The text of a sequence of words, a space behind each. -/
def spell (words : List Wording) : List Char :=
  words.flatMap fun w => w.text.toList ++ [' ']

/-- In front of a space the word is cut off the text as a whole. -/
def Wording.Separate (w : Wording) : Prop :=
  ∃ c cs, w.text.toList = c :: cs ∧
    ∀ rest, Lexeme.next c (cs ++ ' ' :: rest) = (.token w.kind (c :: cs), ' ' :: rest)

theorem separate_symbol (s : Symbol) : (Wording.symbol s).Separate := by
  cases s <;> exact ⟨_, _, String.toList_ofList, fun _ => rfl⟩

theorem isWordStart_only {c : Char} (h : isWordStart c) :
    isBlank c = false ∧ (c == '/') = false ∧ c.isDigit = false := by
  have letter : c.isAlpha ∨ c = '_' := by simpa [isWordStart] using h
  refine ⟨?_, ?_, ?_⟩
  · simp only [isBlank, Bool.or_eq_false_iff, beq_eq_false_iff_ne]
    refine ⟨⟨⟨?_, ?_⟩, ?_⟩, ?_⟩ <;> rintro rfl <;> revert h <;> decide
  · rw [beq_eq_false_iff_ne]
    rintro rfl
    revert h
    decide
  · rcases letter with letter | rfl
    · simp only [Char.isAlpha, Char.isUpper, Char.isLower, Char.isDigit, Bool.or_eq_true,
        Bool.and_eq_true, decide_eq_true_eq, ge_iff_le, UInt32.le_iff_toNat_le,
        Bool.and_eq_false_iff, decide_eq_false_iff_not] at letter ⊢
      simp at letter ⊢
      omega
    · decide

theorem separate_word {text : String} {c : Char} {cs : List Char} (h : text.toList = c :: cs)
    (start : isWordStart c) (part : cs.all isWordPart) :
    Wording.Separate ⟨.ofWord text, text⟩ := by
  refine ⟨c, cs, h, fun rest => ?_⟩
  obtain ⟨notBlank, notSlash, notDigit⟩ := isWordStart_only start
  have stop : isWordPart ' ' = false := by decide
  have word : String.ofList (c :: cs) = text := by rw [← h, String.ofList_toList]
  unfold Lexeme.next
  simp [notBlank, notSlash, notDigit, start, List.takeWhile_append_of_pos (List.all_eq_true.1 part),
    List.dropWhile_append_of_pos (List.all_eq_true.1 part), stop, word]

theorem ofWord_text (k : Keyword) : Token.Kind.ofWord k.text = .keyword k := by
  cases k <;> rfl

theorem separate_keyword (k : Keyword) : (Wording.keyword k).Separate := by
  rw [Wording.keyword, ← ofWord_text]
  cases k <;> exact separate_word rfl (by decide) (by decide)

/-! ### Cutting -/

/-- The lexemes of a sequence of words. -/
def pieces (words : List Wording) : List Lexeme :=
  words.flatMap fun w => [.token w.kind w.text.toList, .blank ' ']

theorem lexemes_spell {words : List Wording} (h : ∀ w ∈ words, w.Separate) :
    lexemes (spell words) = pieces words := by
  induction words with
  | nil => exact lexemes_nil
  | cons w words ih =>
      obtain ⟨separate, h⟩ := List.forall_mem_cons.1 h
      obtain ⟨c, cs, text, cut⟩ := separate
      have first : spell (w :: words) = c :: (cs ++ ' ' :: spell words) := by
        simp [spell, text]
      have blank (rest : List Char) : Lexeme.next ' ' rest = (.blank ' ', rest) := rfl
      rw [first, lexemes_cons, cut, lexemes_cons, blank, ih h]
      simp [pieces, text]

/-! ### Placing -/

theorem diagnostics_foldl_pieces (words : List Wording) (state : Lexed.Placing) :
    ((pieces words).foldl Lexed.Placing.add state).diagnostics = state.diagnostics := by
  induction words generalizing state with
  | nil => rfl
  | cons w words ih => exact ih _

theorem wordings_foldl_pieces (words : List Wording) (state : Lexed.Placing) :
    ((pieces words).foldl Lexed.Placing.add state).tokens.reverse.map Token.wording =
      state.tokens.reverse.map Token.wording ++ words := by
  induction words generalizing state with
  | nil => simp [pieces]
  | cons w words ih =>
      have first : pieces (w :: words) =
          .token w.kind w.text.toList :: .blank ' ' :: pieces words := rfl
      rw [first, List.foldl_cons, List.foldl_cons, ih]
      simp [Lexed.Placing.add, Token.wording]

theorem lex_spell {words : List Wording} (h : ∀ w ∈ words, w.Separate) :
    (lex (String.ofList (spell words))).diagnostics = [] ∧
      (lex (String.ofList (spell words))).tokens.map Token.wording = words := by
  unfold lex Lexed.ofLexemes
  rw [String.toList_ofList, lexemes_spell h]
  constructor
  · simp [diagnostics_foldl_pieces]
  · exact wordings_foldl_pieces words _

end Workbench.Syntax
