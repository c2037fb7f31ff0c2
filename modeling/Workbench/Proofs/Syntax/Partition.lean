import Workbench.Proofs.Syntax.Placement

/-!
# The partition of a text

The ranges of the tokens and of the diagnostics lie one behind the other, and what is outside of them
are the blanks and the line comments. What a comment is can be said without the lexer: two slashes
and all behind them in their line. Two slashes that stand within another comment make no difference,
and nowhere else do they stand within a lexeme.
-/

namespace Workbench.Syntax

open Source (Span Diagnostic)

/-! ### Comments -/

/-- The character that `rest` starts with stands in a line comment if `front` stands before it: in
its line are two slashes that start before it or with it. -/
def InComment (front rest : List Char) : Prop :=
  ∃ before line, front = before ++ line ∧ slashes <+: line ++ rest ∧ '\n' ∉ line ++ rest.take 1

/-- No comment is left open between two texts, unless by the end of its line. -/
def Settled (front rest : List Char) : Prop :=
  InComment front rest → rest = [] ∨ slashes <+: rest

theorem settled_nil (input : List Char) : Settled [] input := by
  rintro ⟨before, line, split, starts, -⟩
  obtain ⟨rfl, rfl⟩ := List.append_eq_nil_iff.1 split.symm
  exact .inr starts

section

variable {front input rest : List Char} {piece : Lexeme}

/-- Behind a settled place no comment goes on within a lexeme that is none itself. -/
theorem not_inComment (settled : Settled front input) (cut : Cut input piece rest)
    (plain : piece.isComment = false) {a b : List Char} (split : piece.chars = a ++ b)
    (inside : InComment (front ++ a) (b ++ rest)) : b = [] ∧ slashes <+: rest := by
  obtain ⟨code, slash⟩ := cut.no_comment plain
  have whole : input = a ++ (b ++ rest) := by rw [cut.whole, split, List.append_assoc]
  obtain ⟨before, line, around, starts, same⟩ := inside
  rcases List.append_eq_append_iff.1 around with ⟨more, rfl, rfl⟩ | ⟨more, rfl, rfl⟩
  · -- The slashes start within the lexeme or behind it.
    rw [← List.append_assoc] at starts
    cases more with
    | nil => exact absurd (by simpa [whole] using starts) code
    | cons d ds =>
        cases tail : line ++ b with
        | nil => exact ⟨(List.append_eq_nil_iff.1 tail).2, by simpa [tail] using starts⟩
        | cons e es =>
            obtain ⟨behind, same⟩ := starts
            have first : '/' = e := by
              simpa [tail, slashes] using congrArg List.head? same
            refine absurd ?_ slash
            rw [split, List.append_assoc, tail, first]
            simp
  · -- The slashes start in front of the lexeme, where the comment is open then.
    have within : InComment (before ++ more) input := by
      refine ⟨before, more, rfl, by rwa [whole, ← List.append_assoc], ?_⟩
      rw [whole]
      cases a <;> simp_all
    rcases settled within with none | starts
    · exact absurd none cut.ne_nil
    · exact absurd starts code

theorem Settled.step (settled : Settled front input) (cut : Cut input piece rest) :
    Settled (front ++ piece.chars) rest := by
  intro inside
  cases plain : piece.isComment with
  | false => exact .inr (not_inComment settled cut plain (List.append_nil _).symm inside).2
  | true =>
      cases cut with
      | @comment body rest line stop =>
          obtain ⟨before, line, around, starts, same⟩ := inside
          cases rest with
          | nil => exact .inl rfl
          | cons c cs => exact absurd (by simp [stop c rfl]) same
      | _ => cases plain

theorem Cuts.settled (settled : Settled front input) {before after : List Lexeme}
    (cuts : Cuts input (before ++ after)) :
    Settled (front ++ charsOf before) (charsOf after) := by
  induction before generalizing front input with
  | nil =>
      have whole : input = charsOf after := cuts.whole
      rw [← whole]
      simpa [charsOf] using settled
  | cons piece before ih =>
      cases cuts with
      | cons cut cuts => simpa using ih (settled.step cut) cuts

/-- The characters of a lexeme are blanks or in comments if it is skipped, and otherwise none of
them is. -/
theorem isSkipped_iff (settled : Settled front input) (cut : Cut input piece rest)
    {a b : List Char} {c : Char} (split : piece.chars = a ++ c :: b) :
    piece.isSkipped ↔ isBlank c ∨ InComment (front ++ a) (c :: b ++ rest) := by
  cases loud : piece.isSkipped with
  | false =>
      have known : c ∈ piece.chars := by simp [split]
      have plain : piece.isComment = false := by
        cases piece <;> first | rfl | cases loud
      refine ⟨fun skipped => (by cases skipped), ?_⟩
      rintro (blank | inside)
      · rw [cut.no_blank loud c known] at blank
        cases blank
      · cases (not_inComment settled cut plain split inside).1
  | true =>
      refine ⟨fun _ => ?_, fun _ => rfl⟩
      cases cut with
      | blank rest blank =>
          have known : c ∈ a ++ c :: b := by simp
          rw [← split] at known
          obtain rfl := List.mem_singleton.1 known
          exact .inl blank
      | @comment body rest line stop =>
          have chars : slashes ++ body = a ++ c :: b := split
          refine .inr ⟨front, a, rfl, ⟨body ++ rest, ?_⟩, fun known => ?_⟩
          · rw [← List.append_assoc, chars, List.append_assoc]
          · have known : '\n' ∈ slashes ++ body := by
              rw [chars, List.append_cons]
              exact List.mem_append_left b (by simpa using known)
            exact line (by simpa [slashes] using known)
      | _ => cases loud

end

/-! ### Bytes -/

/-- Each byte of a text is a byte of some character. -/
theorem exists_char {cs : List Char} {i : Nat} (bound : i < utf8Length cs) :
    ∃ a c b, cs = a ++ c :: b ∧ utf8Length a ≤ i ∧ i < utf8Length a + c.utf8Size := by
  induction cs generalizing i with
  | nil => simp at bound
  | cons d ds ih =>
      by_cases first : i < d.utf8Size
      · exact ⟨[], d, ds, rfl, Nat.zero_le i, by simpa using first⟩
      · obtain ⟨a, c, b, rfl, low, high⟩ := ih (i := i - d.utf8Size) (by simp at bound; omega)
        refine ⟨d :: a, c, b, rfl, ?_, ?_⟩ <;> rw [utf8Length_cons] <;> omega

/-- A character behind another one has other bytes. -/
theorem no_char_between {a as b b' : List Char} {c c' : Char} (whole : c :: b = as ++ c' :: b')
    (near : utf8Length (a ++ as) < utf8Length a + c.utf8Size) : as = [] := by
  cases as with
  | nil => rfl
  | cons d ds =>
      obtain rfl : c = d := by simpa using congrArg List.head? whole
      simp at near

/-- Each byte of a text is a byte of one character only. -/
theorem char_unique {a a' b b' : List Char} {c c' : Char} (whole : a ++ c :: b = a' ++ c' :: b')
    {i : Nat} (low : utf8Length a ≤ i) (high : i < utf8Length a + c.utf8Size)
    (low' : utf8Length a' ≤ i) (high' : i < utf8Length a' + c'.utf8Size) :
    a = a' ∧ c = c' ∧ b = b' := by
  rcases List.append_eq_append_iff.1 whole with ⟨as, rfl, rest⟩ | ⟨as, rfl, rest⟩
  · obtain rfl := no_char_between (a := a) rest (by omega)
    simpa using rest
  · obtain rfl := no_char_between (a := a') rest (by omega)
    simpa [eq_comm] using rest

/-- The byte at an offset belongs to a blank or stands in a comment. -/
def Skipped (source : String) (i : Nat) : Prop :=
  ∃ front c rest, source.toList = front ++ c :: rest ∧
    utf8Length front ≤ i ∧ i < utf8Length front + c.utf8Size ∧
    (isBlank c ∨ InComment front (c :: rest))

/-- Each byte of a text is a byte of some lexeme. -/
theorem exists_placed {pieces : List Lexeme} {offset i : Nat} (low : offset ≤ i)
    (high : i < offset + utf8Length (charsOf pieces)) :
    ∃ p ∈ placed offset pieces, p.span.Covers i := by
  induction pieces generalizing offset with
  | nil => simp [charsOf] at high; omega
  | cons piece pieces ih =>
      rw [charsOf_cons, utf8Length_append, ← Nat.add_assoc] at high
      by_cases first : i < offset + utf8Length piece.chars
      · exact ⟨_, List.mem_cons_self, low, first⟩
      · obtain ⟨p, known, covers⟩ := ih (by omega) high
        exact ⟨p, List.mem_cons_of_mem _ known, covers⟩

/-- What a lexeme takes is skipped or not as a whole. -/
theorem skipped_iff {source : String} {p : Placed} (known : p ∈ placesOf source) {i : Nat}
    (covers : p.span.Covers i) : Skipped source i ↔ p.piece.isSkipped := by
  obtain ⟨before, after, pieces, start⟩ := mem_placed_iff.1 known
  have cuts := cuts_lexemes source.toList
  rw [pieces] at cuts
  have settled := cuts.settled (settled_nil _)
  obtain ⟨low, high⟩ := covers
  have start : p.span.start = utf8Length (charsOf before) := by simpa [Placed.span] using start
  have stop : p.span.stop = utf8Length (charsOf before) + utf8Length p.piece.chars := by
    rw [← start]
    rfl
  obtain ⟨a, c, b, split, low', high'⟩ :=
    @exists_char p.piece.chars (i - p.span.start) (by omega)
  have whole : source.toList = (charsOf before ++ a) ++ c :: (b ++ charsOf after) := by
    rw [cuts.whole]
    simp [split]
  have skips := isSkipped_iff settled cuts.cut split
  rw [skips]
  constructor
  · rintro ⟨front, d, rest, same, lower, higher, reason⟩
    obtain ⟨rfl, rfl, rfl⟩ := char_unique (same.symm.trans whole) lower higher
      (by rw [utf8Length_append]; omega) (by rw [utf8Length_append]; omega)
    exact reason
  · intro reason
    refine ⟨_, c, _, whole, ?_, ?_, reason⟩ <;> rw [utf8Length_append] <;> omega

/-! ### Diagnostics -/

/-- What the diagnostics of a text are about: a word that starts like a number, as a whole, or a byte
of a character that belongs to no word and starts no token. -/
inductive Refuses (source : String) : Diagnostic → Prop
  | number {span : Span} {front word rest : String} (stands : Stands source span front word rest)
      (start : word.toList.head?.any Char.isDigit) (part : word.toList.all isWordPart)
      (letter : ¬ word.toList.all isNumberPart) (stop : ¬ StartsWord rest.toList) :
      Refuses source (LexicalProblem.malformedInteger.diagnostic span)
  | character {front rest : List Char} {c : Char} {i : Nat} (inside : i < c.utf8Size)
      (stands : source.toList = front ++ c :: rest) (word : isWordPart c = false)
      (noToken : ∀ (kind : Token.Kind) (text : List Char), kind.Spelled text → ¬ text <+: c :: rest) :
      Refuses source ((LexicalProblem.unexpectedCharacter
        (if c.utf8Size == 1 then c.toString else "?")).diagnostic
          ⟨utf8Length front + i, utf8Length front + i + 1⟩)

theorem refuses_of_mem {source : String} {p : Placed} (known : p ∈ placesOf source)
    {d : Diagnostic} (refused : d ∈ p.diagnostics) : Refuses source d := by
  obtain ⟨front, rest, whole, start, cut⟩ := cut_of_mem_placesOf known
  rcases Placed.mem_diagnostics_iff.1 refused with ⟨word, piece, rfl⟩ | ⟨c, piece, stray⟩
  · have stands := Stands.of_chars whole
    rw [piece] at cut
    rw [← start] at stands
    obtain ⟨first, part, letter, stop⟩ := cut.of_malformed
    exact .number stands (by simpa [piece, Lexeme.chars] using first)
      (by simpa [piece, Lexeme.chars] using part) (by simpa [piece, Lexeme.chars] using letter)
      (by simpa using stop)
  · obtain ⟨i, inside, rfl⟩ := Placed.mem_strayDiagnostics_iff.1 stray
    rw [piece] at cut whole
    rw [start]
    exact .character inside whole cut.of_stray fun kind text => cut.no_token kind

/-! ### The partition -/

/-- The ranges of the tokens and of the diagnostics. -/
def Lexed.spans (found : Lexed) : List Span :=
  found.tokens.map (·.span) ++ found.diagnostics.map (·.span)

/-- The tokens and the diagnostics of a text divide it up: what is in none of their ranges is blank
or in a comment, each byte of the rest is in just one of them, and every token is whole. -/
structure Partitions (source : String) (found : Lexed) : Prop where
  proper : ∀ span ∈ found.spans, span.start < span.stop ∧ span.stop ≤ source.utf8ByteSize
  tokensInOrder : found.tokens.Pairwise fun t u => t.span.Before u.span
  diagnosticsInOrder : found.diagnostics.Pairwise fun d e => d.span.Before e.span
  apart : ∀ t ∈ found.tokens, ∀ d ∈ found.diagnostics, t.span.Apart d.span
  covers : ∀ i < source.utf8ByteSize,
    (∃ span ∈ found.spans, span.Covers i) ↔ ¬ Skipped source i
  tokens : ∀ t ∈ found.tokens, ∃ front rest, Stands source t.span front t.text rest ∧
    WholeToken t.kind t.text.toList rest.toList
  diagnostics : ∀ d ∈ found.diagnostics, Refuses source d
  ending : found.stream = found.tokens ++ [Token.eof source.utf8ByteSize]
  endsOnce : ∀ t ∈ found.tokens, t.kind ≠ .eof

theorem mem_spans_iff {source : String} {span : Span} :
    span ∈ (lex source).spans ↔ ∃ p ∈ placesOf source, span ∈ p.spans := by
  simp only [lex_eq, Lexed.spans, List.mem_append, List.mem_map, List.mem_flatMap,
    Placed.spans_eq]
  constructor
  · rintro (⟨t, ⟨p, known, token⟩, rfl⟩ | ⟨d, ⟨p, known, refused⟩, rfl⟩)
    · exact ⟨p, known, .inl ⟨t, token, rfl⟩⟩
    · exact ⟨p, known, .inr ⟨d, refused, rfl⟩⟩
  · rintro ⟨p, known, ⟨t, token, rfl⟩ | ⟨d, refused, rfl⟩⟩
    · exact .inl ⟨t, ⟨p, known, token⟩, rfl⟩
    · exact .inr ⟨d, ⟨p, known, refused⟩, rfl⟩

theorem token_of_mem {source : String} {t : Token} (known : t ∈ (lex source).tokens) :
    ∃ p ∈ placesOf source, t ∈ p.tokens := by
  rw [lex_eq] at known
  exact List.mem_flatMap.1 known

theorem diagnostic_of_mem {source : String} {d : Diagnostic}
    (known : d ∈ (lex source).diagnostics) : ∃ p ∈ placesOf source, d ∈ p.diagnostics := by
  rw [lex_eq] at known
  exact List.mem_flatMap.1 known

theorem stands_of_mem {source : String} {t : Token} (known : t ∈ (lex source).tokens) :
    ∃ front rest, Stands source t.span front t.text rest ∧
      WholeToken t.kind t.text.toList rest.toList := by
  obtain ⟨p, placed, token⟩ := token_of_mem known
  obtain ⟨front, rest, whole, start, cut⟩ := cut_of_mem_placesOf placed
  obtain ⟨piece, span⟩ := Placed.mem_tokens_iff.1 token
  have stands := Stands.of_chars whole
  rw [piece] at cut
  rw [← start] at stands
  refine ⟨_, _, by simpa [span, piece, Lexeme.chars, Placed.span] using stands, ?_⟩
  simpa using cut.token

theorem covers_iff_of_lt {source : String} {i : Nat} (bound : i < source.utf8ByteSize) :
    (∃ span ∈ (lex source).spans, span.Covers i) ↔ ¬ Skipped source i := by
  constructor
  · rintro ⟨span, known, covers⟩
    obtain ⟨p, placed, mine⟩ := mem_spans_iff.1 known
    obtain ⟨loud, within⟩ := (p.covers_iff i).1 ⟨span, mine, covers⟩
    rw [skipped_iff placed within, loud]
    exact Bool.false_ne_true
  · intro unskipped
    obtain ⟨p, placed, covers⟩ := exists_placed (Nat.zero_le i)
      (by rwa [Nat.zero_add, utf8Length_charsOf_lexemes source])
    have loud : p.piece.isSkipped = false := by
      simpa using (skipped_iff placed covers).not.1 unskipped
    obtain ⟨span, mine, covers⟩ := (p.covers_iff i).2 ⟨loud, covers⟩
    exact ⟨span, mem_spans_iff.2 ⟨p, placed, mine⟩, covers⟩

/-- Every text is divided up by its tokens and diagnostics. -/
theorem lexing_partitions (source : String) : Partitions source (lex source) := by
  constructor
  case proper =>
    intro span known
    obtain ⟨p, placed, mine⟩ := mem_spans_iff.1 known
    obtain ⟨front, rest, -, -, cut⟩ := cut_of_mem_placesOf placed
    have inside := (Placed.within_of_mem_spans mine).2.trans (within_of_mem_placesOf placed).2
    exact ⟨Placed.start_lt_of_mem_spans cut.chars_ne_nil mine, inside⟩
  case tokensInOrder =>
    have ordered := pairwise_flatMap_placesOf source (f := fun p => p.tokens.map (·.span))
      fun p => by rw [p.spans_eq]; exact List.sublist_append_left _ _
    rw [lex_eq]
    rwa [← List.map_flatMap, List.pairwise_map] at ordered
  case diagnosticsInOrder =>
    have ordered := pairwise_flatMap_placesOf source (f := fun p => p.diagnostics.map (·.span))
      fun p => by rw [p.spans_eq]; exact List.sublist_append_right _ _
    rw [lex_eq]
    rwa [← List.map_flatMap, List.pairwise_map] at ordered
  case apart =>
    intro t ht d hd
    obtain ⟨p, hp, token⟩ := token_of_mem ht
    obtain ⟨q, hq, refused⟩ := diagnostic_of_mem hd
    have differ : p ≠ q := by
      rintro rfl
      obtain ⟨piece, -⟩ := Placed.mem_tokens_iff.1 token
      rcases Placed.mem_diagnostics_iff.1 refused with ⟨word, other, -⟩ | ⟨c, other, -⟩ <;>
        simp [piece] at other
    refine Span.Within.apart ?_ ?_ (apart_of_mem_placed hp hq differ) <;>
      apply Placed.within_of_mem_spans <;> rw [Placed.spans_eq, List.mem_append]
    · exact .inl (List.mem_map_of_mem token)
    · exact .inr (List.mem_map_of_mem refused)
  case covers => exact fun i bound => covers_iff_of_lt bound
  case tokens => exact fun t known => stands_of_mem known
  case diagnostics =>
    intro d known
    obtain ⟨p, placed, refused⟩ := diagnostic_of_mem known
    exact refuses_of_mem placed refused
  case ending => rw [lex_eq]; rfl
  case endsOnce =>
    intro t known isEnd
    obtain ⟨front, rest, -, whole⟩ := stands_of_mem known
    rw [isEnd] at whole
    exact whole.spelled

/-- A number that runs into a word is refused as a whole, and of an operator no part is left over. -/
example : (lex "12abc<= // end").tokens.map (·.text) = ["<="] ∧
    (lex "12abc<= // end").diagnostics.map (·.span) = [⟨0, 5⟩] := by
  decide +kernel

end Workbench.Syntax
