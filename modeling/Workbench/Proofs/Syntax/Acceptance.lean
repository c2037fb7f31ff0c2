import Workbench.Proofs.Syntax.Precedence
import Workbench.Proofs.Syntax.Recognition

/-!
# The reader accepts the grammar

Words of a text are spelled as there is only one way to, so what is read is derived, and what is
derived is read unless a limit is met. A derivation that respects precedence is therefore the only
one, namely the one that is read.
-/

namespace Workbench.Syntax

open Source (Diagnostic)
open Syntax.Parser

/-! ### Words of a text -/

/-- What the lexer makes of a word is spelled as there is only one way to. -/
def Lexeme.Canonical : Lexeme → Prop
  | .token kind cs => Wording.Canonical ⟨kind, String.ofList cs⟩
  | _ => True

theorem Lexeme.canonical_number (input : List Char) : (number input).1.Canonical := by
  simp only [number]
  split <;> trivial

theorem Token.Kind.canonical_ofWord (text : String) :
    Wording.Canonical ⟨Token.Kind.ofWord text, text⟩ := by
  unfold ofWord
  split
  case h_1 k found =>
    have spelled : k.text = text := by simpa [Keyword.ofText?] using List.find?_some found
    exact congrArg (Wording.mk _) spelled.symm
  case h_2 => split <;> trivial

theorem Lexeme.canonical_next (c : Char) (cs : List Char) : (next c cs).1.Canonical := by
  unfold next
  split
  · trivial
  split
  · trivial
  split
  · exact canonical_number _
  split
  · exact Token.Kind.canonical_ofWord _
  split
  · rfl
  · trivial

theorem canonical_lexemes (input : List Char) : ∀ piece ∈ lexemes input, piece.Canonical := by
  induction h : input.length using Nat.strongRecOn generalizing input with
  | ind n ih =>
      cases input with
      | nil => simp [lexemes_nil]
      | cons c cs =>
          have shorter := Lexeme.length_next_lt c cs
          rw [lexemes_cons, List.forall_mem_cons]
          exact ⟨Lexeme.canonical_next c cs, ih _ (h ▸ shorter) _ rfl⟩

theorem canonical_add {state : Lexed.Placing} {piece : Lexeme} (h : piece.Canonical)
    (known : ∀ t ∈ state.tokens, t.wording.Canonical) :
    ∀ t ∈ (state.add piece).tokens, t.wording.Canonical := by
  cases piece with
  | token kind cs => exact List.forall_mem_cons.2 ⟨h, known⟩
  | _ => exact known

theorem canonical_foldl {pieces : List Lexeme} (h : ∀ piece ∈ pieces, piece.Canonical)
    {state : Lexed.Placing} (known : ∀ t ∈ state.tokens, t.wording.Canonical) :
    ∀ t ∈ (pieces.foldl Lexed.Placing.add state).tokens, t.wording.Canonical := by
  induction pieces generalizing state with
  | nil => exact known
  | cons piece rest ih =>
      obtain ⟨first, others⟩ := List.forall_mem_cons.1 h
      exact ih others (canonical_add first known)

/-- The words of a text. -/
def wordsOf (source : String) : Words :=
  (lex source).tokens.map Token.wording

theorem canonical_wordsOf (source : String) : ∀ w ∈ wordsOf source, w.Canonical := by
  have none : ∀ t ∈ (⟨[], [], 0⟩ : Lexed.Placing).tokens, t.wording.Canonical := by simp
  have tokens := canonical_foldl (canonical_lexemes source.toList) none
  intro w found
  obtain ⟨t, mem, rfl⟩ := List.mem_map.1 found
  exact tokens t (List.mem_reverse.1 mem)

/-! ### Acceptance -/

theorem parse_of_clean {source : String} (clean : (lex source).diagnostics = []) :
    parse source =
      match parseContract.run ⟨(lex source).tokens, (lex source).size⟩ with
      | .ok (c, _) => .ok c
      | .error e => .error [e.diagnostic] := by
  simp only [parse, clean, List.isEmpty_nil, if_true, Contract.ofStream, StateT.run'_eq]
  cases parseContract.run ⟨(lex source).tokens, (lex source).size⟩ <;> rfl

theorem GrammarProblem.IsLimit.code {problem : GrammarProblem} (h : problem.IsLimit) :
    problem.code = "E0105" ∨ problem.code = "E0102" := by
  cases h with
  | inl h => exact .inl (h ▸ rfl)
  | inr h => exact .inr (h ▸ rfl)

theorem derives_of_parse {source : String} (clean : (lex source).diagnostics = []) {c : Contract}
    (h : parse source = .ok c) : Contract.Derives .standard (wordsOf source) c.bare := by
  rw [parse_of_clean clean] at h
  split at h
  case h_1 c' s run =>
    cases h
    exact (finds_parseContract (canonical_wordsOf source) _ _ _ rfl run).2
  case h_2 => cases h

theorem parse_of_derives {source : String} (clean : (lex source).diagnostics = [])
    (within : ∀ ds, parse source = .error ds → ∀ d ∈ ds, d.code ≠ "E0105" ∧ d.code ≠ "E0102")
    {c : Contract} (h : Contract.Derives .standard (wordsOf source) c) :
    ∃ c', parse source = .ok c' ∧ c'.bare = c := by
  rw [parse_of_clean clean] at within ⊢
  have found := recognizes_parseContract h ⟨(lex source).tokens, (lex source).size⟩ rfl
  split at found
  case h_1 c' s run =>
    rw [run]
    exact ⟨c', rfl, found.2⟩
  case h_2 e run =>
    rw [run] at within
    obtain ⟨notDeep, notLarge⟩ := within _ rfl _ (List.mem_singleton_self _)
    exact (found.code.elim notDeep notLarge).elim

end Workbench.Syntax
