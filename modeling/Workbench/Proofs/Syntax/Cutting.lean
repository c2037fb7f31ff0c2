import Workbench.Proofs.Syntax.Spelled

/-!
# What is cut off a text

`Cut` lists the ways in which a lexeme is cut off the front of a text, with all that is known of the
characters on both sides of the cut. A token is the longest one that the text starts with, and its
characters say of what kind it is.
-/

namespace Workbench.Syntax

/-! ### Spellings -/

/-- A word starts with a letter or an underscore and goes on with letters, digits and underscores. -/
def IsWord (text : List Char) : Prop :=
  text.head?.any isWordStart ∧ text.all isWordPart

/-- The texts of the tokens of a kind. The end of the input has none. -/
def Token.Kind.Spelled (text : List Char) : Token.Kind → Prop
  | .eof => False
  | .ident => IsWord text ∧ (∀ k : Keyword, text ≠ k.text.toList) ∧
      text ≠ "true".toList ∧ text ≠ "false".toList
  | .intLiteral => text.head?.any Char.isDigit ∧ text.all isNumberPart
  | .boolLiteral => text = "true".toList ∨ text = "false".toList
  | .keyword k => text = k.text.toList
  | .symbol s => text = s.chars

theorem isWordPart_of_isNumberPart {c : Char} (h : isNumberPart c) : isWordPart c := by
  have either : c.isDigit ∨ c = '_' := by simpa [isNumberPart] using h
  rcases either with digit | rfl
  · simp [isWordPart, digit]
  · decide

theorem isBlank_of_isWordPart {c : Char} (h : isWordPart c) : isBlank c = false := by
  rw [Bool.eq_false_iff]
  intro blank
  have which : ((c = ' ' ∨ c = '\t') ∨ c = '\n') ∨ c = '\r' := by simpa [isBlank] using blank
  rcases which with ((rfl | rfl) | rfl) | rfl <;> exact absurd h (by decide)

theorem isWord_keyword (k : Keyword) : IsWord k.text.toList := by
  cases k <;> exact ⟨by decide, by decide⟩

/-- Symbols have no character of a word. -/
theorem Symbol.not_isWordPart (s : Symbol) : s.chars.any isWordPart = false := by
  cases s <;> decide

theorem Symbol.not_isBlank (s : Symbol) : s.chars.any isBlank = false := by
  cases s <;> decide

theorem Symbol.slash_notMem_tail (s : Symbol) : '/' ∉ s.chars.tail := by
  cases s <;> decide

theorem Symbol.chars_injective {s s' : Symbol} (h : s.chars = s'.chars) : s = s' := by
  have all : ∀ s ∈ Symbol.all, ∀ s' ∈ Symbol.all, s.chars = s'.chars → s = s' := by decide
  exact all s s.mem_all s' s'.mem_all h

/-- The character a text starts with is one of a word or a number. -/
def StartsWord (text : List Char) : Prop :=
  text.head?.any isWordPart

theorem startsWord_of_digit {text : List Char} (h : text.head?.any Char.isDigit) :
    StartsWord text := by
  cases text with
  | nil => cases h
  | cons c cs => simp_all [StartsWord, isWordPart]

theorem IsWord.startsWord {text : List Char} (h : IsWord text) : StartsWord text := by
  cases text with
  | nil => cases h.1
  | cons c cs => simp_all [StartsWord, IsWord, isWordPart]

theorem IsWord.no_digit {text : List Char} (h : IsWord text) :
    text.head?.any Char.isDigit = false := by
  cases text with
  | nil => rfl
  | cons c cs =>
      have start : isWordStart c := by simpa [IsWord] using h.1
      simpa using (isWordStart_only start).2.2

theorem Symbol.not_startsWord (s : Symbol) : ¬ StartsWord s.chars := by
  have none := s.not_isWordPart
  cases chars : s.chars <;> simp_all [StartsWord]

namespace Token.Kind.Spelled

variable {k k' : Token.Kind} {text : List Char}

/-- Words, numbers and symbols are told apart by their first character, and the kind of a word by
all its characters. -/
theorem shape (h : k.Spelled text) :
    (IsWord text ∧ k = .ofWord (String.ofList text)) ∨
    ((text.head?.any Char.isDigit ∧ text.all isNumberPart) ∧ k = .intLiteral) ∨
    ∃ s, text = s.chars ∧ k = .symbol s := by
  cases k with
  | eof => exact h.elim
  | ident =>
      obtain ⟨word, noKeyword, noTrue, noFalse⟩ := h
      have unknown : Keyword.ofText? (String.ofList text) = none := by
        rw [Keyword.ofText?, List.find?_eq_none]
        intro k _ same
        have same : k.text = String.ofList text := by simpa using same
        exact noKeyword k (by rw [same, String.toList_ofList])
      have noTrue : String.ofList text ≠ "true" := fun same =>
        noTrue (by rw [← same, String.toList_ofList])
      have noFalse : String.ofList text ≠ "false" := fun same =>
        noFalse (by rw [← same, String.toList_ofList])
      exact .inl ⟨word, by simp [ofWord, unknown, noTrue, noFalse]⟩
  | intLiteral => exact .inr (.inl ⟨h, rfl⟩)
  | boolLiteral => rcases h with rfl | rfl <;> exact .inl ⟨⟨by decide, by decide⟩, rfl⟩
  | keyword k =>
      obtain rfl : text = k.text.toList := h
      exact .inl ⟨isWord_keyword k, by rw [String.ofList_toList, ofWord_text]⟩
  | symbol s => exact .inr (.inr ⟨s, h, rfl⟩)

theorem ne_nil (h : k.Spelled text) : text ≠ [] := by
  rintro rfl
  rcases h.shape with ⟨word, -⟩ | ⟨number, -⟩ | ⟨s, chars, -⟩
  · cases word.1
  · cases number.1
  · exact s.chars_ne_nil chars.symm

/-- A text that starts like a word or a number has no other characters than these. -/
theorem all_isWordPart (h : k.Spelled text) (start : StartsWord text) : text.all isWordPart := by
  rcases h.shape with ⟨word, -⟩ | ⟨number, -⟩ | ⟨s, rfl, -⟩
  · exact word.2
  · exact List.all_eq_true.2 fun c hc =>
      isWordPart_of_isNumberPart (List.all_eq_true.1 number.2 c hc)
  · exact absurd start s.not_startsWord

/-- The text of a token determines its kind. -/
theorem unique (h : k.Spelled text) (h' : k'.Spelled text) : k = k' := by
  have word_number (word : IsWord text) (digit : text.head?.any Char.isDigit) : False := by
    rw [word.no_digit] at digit
    cases digit
  rcases h.shape with ⟨word, rfl⟩ | ⟨number, rfl⟩ | ⟨s, chars, rfl⟩ <;>
    rcases h'.shape with ⟨word', rfl⟩ | ⟨number', rfl⟩ | ⟨s', chars', rfl⟩
  · rfl
  · exact (word_number word number'.1).elim
  · exact absurd (chars' ▸ word.startsWord) s'.not_startsWord
  · exact (word_number word' number.1).elim
  · rfl
  · exact absurd (chars' ▸ startsWord_of_digit number.1) s'.not_startsWord
  · exact absurd (chars ▸ word'.startsWord) s.not_startsWord
  · exact absurd (chars ▸ startsWord_of_digit number'.1) s.not_startsWord
  · rw [Symbol.chars_injective (chars.symm.trans chars')]

end Token.Kind.Spelled

theorem Token.Kind.spelled_ofWord {text : List Char} (word : IsWord text) :
    (Token.Kind.ofWord (String.ofList text)).Spelled text := by
  unfold ofWord
  split
  case h_1 k found =>
    have same : k.text = String.ofList text := by simpa [Keyword.ofText?] using List.find?_some found
    show text = k.text.toList
    rw [same, String.toList_ofList]
  case h_2 unknown =>
    have noKeyword (k : Keyword) : text ≠ k.text.toList := by
      rintro rfl
      rw [Keyword.ofText?, List.find?_eq_none] at unknown
      simpa using unknown k k.mem_all
    split
    case isTrue either =>
      have either : String.ofList text = "true" ∨ String.ofList text = "false" := by
        simpa using either
      rw [← String.toList_ofList (l := text)]
      exact either.imp (congrArg String.toList) (congrArg String.toList)
    case isFalse neither =>
      refine ⟨word, noKeyword, ?_, ?_⟩ <;> rintro rfl <;> exact neither rfl

/-! ### Cuts -/

/-- Two slashes, which start a comment that goes on to the end of the line. -/
def slashes : List Char :=
  ['/', '/']

/-- What is cut off the front of a text, and what is left of it. -/
inductive Cut : List Char → Lexeme → List Char → Prop where
  | blank {c : Char} (rest : List Char) (blank : isBlank c) : Cut (c :: rest) (.blank c) rest
  | comment {body rest : List Char} (line : '\n' ∉ body) (stop : ∀ c ∈ rest.head?, c = '\n') :
      Cut (slashes ++ body ++ rest) (.comment (slashes ++ body)) rest
  | number {digits rest : List Char} (start : digits.head?.any Char.isDigit)
      (digit : digits.all isNumberPart) (stop : ¬ StartsWord rest) :
      Cut (digits ++ rest) (.token .intLiteral digits) rest
  | malformed {word rest : List Char} (start : word.head?.any Char.isDigit)
      (part : word.all isWordPart) (letter : ¬ word.all isNumberPart) (stop : ¬ StartsWord rest) :
      Cut (word ++ rest) (.malformedNumber word) rest
  | word {text rest : List Char} (word : IsWord text) (stop : ¬ StartsWord rest) :
      Cut (text ++ rest) (.token (.ofWord (String.ofList text)) text) rest
  | symbol {s : Symbol} {rest : List Char} (code : ¬ slashes <+: s.chars ++ rest)
      (longest : ∀ s' : Symbol, s'.chars <+: s.chars ++ rest → s'.chars.length ≤ s.chars.length) :
      Cut (s.chars ++ rest) (.token (.symbol s) s.chars) rest
  | stray {c : Char} {rest : List Char} (blank : isBlank c = false) (word : isWordPart c = false)
      (symbol : ∀ s : Symbol, ¬ s.chars <+: c :: rest) : Cut (c :: rest) (.stray c) rest

theorem not_startsWord_dropWhile (cs : List Char) : ¬ StartsWord (cs.dropWhile isWordPart) := by
  have stop := List.head?_dropWhile_not isWordPart cs
  cases rest : cs.dropWhile isWordPart <;> simp_all [StartsWord]

theorem cut_number {c : Char} (cs : List Char) (digit : c.isDigit) :
    Cut (c :: cs) (Lexeme.number (c :: cs)).1 (Lexeme.number (c :: cs)).2 := by
  have whole := List.takeWhile_append_dropWhile (p := isNumberPart) (l := c :: cs)
  have part : isNumberPart c := by simp [isNumberPart, digit]
  have start : ((c :: cs).takeWhile isNumberPart).head?.any Char.isDigit := by simp [part, digit]
  have digits : ((c :: cs).takeWhile isNumberPart).all isNumberPart := List.all_takeWhile
  have stop := List.head?_dropWhile_not isNumberPart (c :: cs)
  simp only [Lexeme.number]
  generalize (c :: cs).takeWhile isNumberPart = front at *
  generalize (c :: cs).dropWhile isNumberPart = rest at *
  rw [← whole]
  cases rest with
  | nil => exact .number start digits (by simp [StartsWord])
  | cons d ds =>
      have noNumber : isNumberPart d = false := by simpa using stop
      by_cases letter : isWordStart d
      · simp only [List.head?_cons, Option.any_some, letter, if_true]
        have more := List.takeWhile_append_dropWhile (p := isWordPart) (l := d :: ds)
        have first : isWordPart d := by simp [isWordPart, letter]
        have cut : Cut (front ++ (d :: ds).takeWhile isWordPart ++ (d :: ds).dropWhile isWordPart)
            (.malformedNumber (front ++ (d :: ds).takeWhile isWordPart))
            ((d :: ds).dropWhile isWordPart) := by
          refine .malformed ?_ ?_ ?_ (not_startsWord_dropWhile _)
          · cases front <;> simp_all
          · rw [List.all_append, Bool.and_eq_true, List.all_eq_true]
            exact ⟨fun c hc => isWordPart_of_isNumberPart (List.all_eq_true.1 digits c hc),
              List.all_takeWhile⟩
          · simp [first, noNumber]
        rwa [List.append_assoc, more] at cut
      · simp only [List.head?_cons, Option.any_some, letter]
        refine .number start digits ?_
        simp_all [StartsWord, isWordPart, isNumberPart]

/-- The first symbol of the table that the text starts with is the longest. -/
theorem longest_symbol? {s : Symbol} {input : List Char} (found : Lexeme.symbol? input = some s) :
    s.chars <+: input ∧ ∀ s' : Symbol, s'.chars <+: input → s'.chars.length ≤ s.chars.length := by
  have descending : Symbol.all.Pairwise fun s s' => s'.chars.length ≤ s.chars.length := by decide
  obtain ⟨starts, before, after, table, none⟩ := List.find?_eq_some_iff_append.1 found
  refine ⟨by simpa using starts, fun s' starts' => ?_⟩
  have known := s'.mem_all
  rw [table] at known descending
  rcases List.mem_append.1 known with early | late
  · have no : s'.chars.isPrefixOf input = false := by simpa using none s' early
    rw [List.isPrefixOf_iff_prefix.2 starts'] at no
    cases no
  · rcases List.mem_cons.1 late with rfl | late
    · exact le_rfl
    · exact List.rel_of_pairwise_cons (List.pairwise_append.1 descending).2.1 late

/-- Each step of the lexer cuts. -/
theorem cut_next (c : Char) (cs : List Char) :
    Cut (c :: cs) (Lexeme.next c cs).1 (Lexeme.next c cs).2 := by
  unfold Lexeme.next
  split
  case isTrue blank => exact .blank cs blank
  case isFalse ink =>
  split
  case isTrue comment =>
    have two : c = '/' ∧ cs.head? = some '/' := by simpa using comment
    obtain ⟨rfl, second⟩ := two
    obtain ⟨cs, rfl⟩ : ∃ rest, cs = '/' :: rest := by
      cases cs <;> simp_all
    have whole := List.takeWhile_append_dropWhile (p := (· != '\n')) (l := cs)
    have line : '\n' ∉ cs.takeWhile (· != '\n') := fun inside => by
      simpa using List.mem_takeWhile_imp inside
    have stop : ∀ c ∈ (cs.dropWhile (· != '\n')).head?, c = '\n' := fun c head => by
      simpa [Option.mem_def.1 head] using List.head?_dropWhile_not (· != '\n') cs
    have cut := Cut.comment line stop
    rw [List.append_assoc, whole] at cut
    exact cut
  case isFalse code =>
  split
  case isTrue digit => exact cut_number cs digit
  case isFalse noDigit =>
  split
  case isTrue start =>
    have whole := List.takeWhile_append_dropWhile (p := isWordPart) (l := cs)
    have word : IsWord (c :: cs.takeWhile isWordPart) := by
      refine ⟨by simpa using start, ?_⟩
      simp [isWordPart, start]
    have cut := Cut.word word (not_startsWord_dropWhile cs)
    rwa [List.cons_append, whole] at cut
  case isFalse noWord =>
  split
  case h_1 s found =>
    obtain ⟨⟨rest, whole⟩, longest⟩ := longest_symbol? found
    rw [← whole] at longest ⊢
    rw [List.drop_left]
    refine .symbol ?_ longest
    rw [whole]
    rintro ⟨more, comment⟩
    obtain ⟨rfl, rfl⟩ : '/' = c ∧ '/' :: more = cs := by simpa [slashes] using comment
    exact code rfl
  case h_2 none =>
    refine .stray (by simpa using ink) (by simp_all [isWordPart]) fun s starts => ?_
    rw [Lexeme.symbol?, List.find?_eq_none] at none
    exact none s s.mem_all (List.isPrefixOf_iff_prefix.2 starts)

/-! ### What is known of a cut -/

/-- A text that starts with another one, which is not empty, starts with its first character. -/
theorem head?_of_isPrefix {front text rest : List Char} (h : front <+: text ++ rest)
    (some : front ≠ []) (some' : text ≠ []) : front.head? = text.head? := by
  obtain ⟨more, whole⟩ := h
  cases front <;> cases text <;> simp_all

/-- A token stands whole in front of a rest: its text determines its kind, no token that starts
where it starts is longer, and words and numbers do not run into one another. -/
structure WholeToken (kind : Token.Kind) (text rest : List Char) : Prop where
  spelled : kind.Spelled text
  unique : ∀ kind' : Token.Kind, kind'.Spelled text → kind' = kind
  longest : ∀ (kind' : Token.Kind) (text' : List Char), kind'.Spelled text' →
    text' <+: text ++ rest → text'.length ≤ text.length
  apart : StartsWord text → ¬ StartsWord rest

/-- A word or a number is whole where no character of a word follows. -/
theorem WholeToken.of_startsWord {kind : Token.Kind} {text rest : List Char}
    (spelled : kind.Spelled text) (start : StartsWord text) (stop : ¬ StartsWord rest) :
    WholeToken kind text rest := by
  refine ⟨spelled, fun _ other => other.unique spelled, ?_, fun _ => stop⟩
  intro kind' text' spelled' starts
  by_contra longer
  obtain ⟨more, rfl⟩ : text <+: text' :=
    List.prefix_of_prefix_length_le (List.prefix_append text rest) starts (by omega)
  have part := spelled'.all_isWordPart
    (by rwa [StartsWord, head?_of_isPrefix starts spelled'.ne_nil spelled.ne_nil])
  obtain ⟨tail, rfl⟩ := (List.prefix_append_right_inj text).1 starts
  cases more with
  | nil => simp at longer
  | cons c cs => exact stop (by simp_all [StartsWord])

namespace Cut

variable {input rest : List Char} {piece : Lexeme}

theorem whole (h : Cut input piece rest) : input = piece.chars ++ rest := by
  cases h <;> rfl

theorem chars_ne_nil (h : Cut input piece rest) : piece.chars ≠ [] := by
  have some {text : List Char} (start : StartsWord text) : text ≠ [] := by
    rintro rfl
    cases start
  cases h with
  | blank => exact List.cons_ne_nil _ _
  | comment => exact List.cons_ne_nil _ _
  | number start => exact some (startsWord_of_digit start)
  | malformed start => exact some (startsWord_of_digit start)
  | word word => exact some word.startsWord
  | @symbol s => exact s.chars_ne_nil
  | stray => exact List.cons_ne_nil _ _

theorem ne_nil (h : Cut input piece rest) : input ≠ [] := by
  rw [h.whole]
  exact List.append_ne_nil_of_left_ne_nil h.chars_ne_nil rest

theorem token {kind : Token.Kind} {text : List Char} (h : Cut input (.token kind text) rest) :
    WholeToken kind text rest := by
  cases h with
  | number start digit stop =>
      exact .of_startsWord ⟨start, digit⟩ (startsWord_of_digit start) stop
  | word word stop => exact .of_startsWord (Token.Kind.spelled_ofWord word) word.startsWord stop
  | @symbol s rest code longest =>
      refine ⟨rfl, fun _ other => other.unique rfl, ?_, fun start => (s.not_startsWord start).elim⟩
      intro kind' text' spelled starts
      have noWord : ¬ StartsWord text' := by
        rw [StartsWord, head?_of_isPrefix starts spelled.ne_nil s.chars_ne_nil]
        exact s.not_startsWord
      rcases spelled.shape with ⟨word, -⟩ | ⟨number, -⟩ | ⟨s', rfl, -⟩
      · exact (noWord word.startsWord).elim
      · exact (noWord (startsWord_of_digit number.1)).elim
      · exact longest s' starts

theorem of_malformed {word : List Char} (h : Cut input (.malformedNumber word) rest) :
    word.head?.any Char.isDigit ∧ word.all isWordPart ∧ ¬ word.all isNumberPart ∧
      ¬ StartsWord rest := by
  cases h with
  | malformed start part letter stop => exact ⟨start, part, letter, stop⟩

theorem of_stray {c : Char} (h : Cut input (.stray c) rest) : isWordPart c = false := by
  cases h with
  | stray blank word symbol => exact word

/-- No token starts with a stray character. -/
theorem no_token {c : Char} (h : Cut input (.stray c) rest) (kind : Token.Kind) {text : List Char}
    (spelled : kind.Spelled text) : ¬ text <+: input := by
  cases h with
  | stray blank word symbol =>
      intro starts
      have noWord : ¬ StartsWord text := by
        have head : text.head? = [c].head? := head?_of_isPrefix starts spelled.ne_nil (by simp)
        simp [StartsWord, head, word]
      rcases spelled.shape with ⟨word, -⟩ | ⟨number, -⟩ | ⟨s, rfl, -⟩
      · exact noWord word.startsWord
      · exact noWord (startsWord_of_digit number.1)
      · exact symbol s starts

end Cut

/-! ### What is skipped -/

/-- Blanks and comments are skipped. -/
def Lexeme.isSkipped : Lexeme → Bool
  | .blank _ | .comment _ => true
  | _ => false

def Lexeme.isComment : Lexeme → Bool
  | .comment _ => true
  | _ => false

theorem not_slash_of_isWordPart {c : Char} (h : isWordPart c) : c ≠ '/' := by
  intro same
  subst same
  exact absurd h (by decide)

namespace Cut

variable {input rest : List Char} {piece : Lexeme}

/-- Only a comment starts with two slashes, and none starts within another lexeme. -/
theorem no_comment (h : Cut input piece rest) (plain : piece.isComment = false) :
    ¬ slashes <+: input ∧ '/' ∉ piece.chars.tail := by
  have first {c : Char} {cs : List Char} (other : c ≠ '/') : ¬ slashes <+: c :: cs := by
    rintro ⟨more, same⟩
    have same : '/' = c := by simpa [slashes] using congrArg List.head? same
    exact other same.symm
  have word {text : List Char} (start : StartsWord text) (part : text.all isWordPart) :
      ¬ slashes <+: text ++ rest ∧ '/' ∉ text.tail := by
    have other : ∀ c ∈ text, c ≠ '/' := fun c known =>
      not_slash_of_isWordPart (List.all_eq_true.1 part c known)
    refine ⟨?_, fun known => other _ (List.mem_of_mem_tail known) rfl⟩
    cases text with
    | nil => cases start
    | cons c cs => exact first (other c List.mem_cons_self)
  cases h with
  | blank rest blank =>
      refine ⟨first ?_, by simp [Lexeme.chars]⟩
      rintro rfl
      exact absurd blank (by decide)
  | comment => cases plain
  | number start digit stop =>
      refine word (startsWord_of_digit start) (List.all_eq_true.2 fun c known => ?_)
      exact isWordPart_of_isNumberPart (List.all_eq_true.1 digit c known)
  | malformed start part letter stop => exact word (startsWord_of_digit start) part
  | word text stop => exact word text.startsWord text.2
  | @symbol s rest code longest => exact ⟨code, s.slash_notMem_tail⟩
  | stray blank word symbol =>
      refine ⟨fun comment => ?_, by simp [Lexeme.chars]⟩
      exact symbol .slash ((List.prefix_append ['/'] ['/']).trans comment)

/-- No blank is within a lexeme that is not skipped. -/
theorem no_blank (h : Cut input piece rest) (loud : piece.isSkipped = false) :
    ∀ c ∈ piece.chars, isBlank c = false := by
  intro c known
  cases h with
  | blank => cases loud
  | comment => cases loud
  | number start digit stop =>
      exact isBlank_of_isWordPart (isWordPart_of_isNumberPart (List.all_eq_true.1 digit c known))
  | malformed start part letter stop =>
      exact isBlank_of_isWordPart (List.all_eq_true.1 part c known)
  | word word stop => exact isBlank_of_isWordPart (List.all_eq_true.1 word.2 c known)
  | @symbol s rest code longest => simpa using List.any_eq_false.1 s.not_isBlank c known
  | stray blank word symbol =>
      obtain rfl := List.mem_singleton.1 known
      exact blank

end Cut

end Workbench.Syntax
