import Workbench.Source.Diagnostic
import Workbench.Syntax.Token

/-!
# Cutting a text into lexemes

The lexer has two halves. `Lexeme.next` cuts the longest lexeme off the front of a non-empty list of
characters, and `lexemes` repeats it until nothing is left. Blanks, comments, tokens and malformed
pieces are all lexemes, so the cut loses nothing (`chars_next`) and always makes progress
(`length_next_lt`). `Lexed` then places the lexemes: each character advances the offset by the bytes
of its encoding, tokens are collected with their place, and malformed pieces become diagnostics.
-/

namespace Workbench.Syntax

open Source (Span Diagnostic)

/-! ### Character classes -/

/-- Space, tab, line feed and carriage return separate tokens; no other character does. -/
def isBlank (c : Char) : Bool :=
  c == ' ' || c == '\t' || c == '\n' || c == '\r'

/-- Identifiers start with an ASCII letter or an underscore. -/
def isWordStart (c : Char) : Bool :=
  c.isAlpha || c == '_'

/-- Identifiers go on with ASCII letters, digits and underscores. -/
def isWordPart (c : Char) : Bool :=
  isWordStart c || c.isDigit

/-- Numbers are made of digits, which underscores may separate. -/
def isNumberPart (c : Char) : Bool :=
  c.isDigit || c == '_'

/-! ### Lexemes -/

/-- A piece of the input, with the characters it covers. -/
inductive Lexeme where
  | blank (c : Char)
  /-- A comment, from its two slashes up to the end of the line. -/
  | comment (chars : List Char)
  | token (kind : Token.Kind) (chars : List Char)
  /-- A number that runs into a word. -/
  | malformedNumber (chars : List Char)
  /-- A character that starts no token. -/
  | stray (c : Char)
  deriving DecidableEq, Repr

namespace Lexeme

def chars : Lexeme → List Char
  | blank c => [c]
  | comment cs => cs
  | token _ cs => cs
  | malformedNumber cs => cs
  | stray c => [c]

/-- The first symbol of the table that the input starts with. -/
def symbol? (input : List Char) : Option Symbol :=
  Symbol.all.find? fun s => s.chars.isPrefixOf input

/-- The number at the front of the input. A word character behind the digits makes the number and
the whole word one malformed piece. -/
def number (input : List Char) : Lexeme × List Char :=
  let digits := input.takeWhile isNumberPart
  let rest := input.dropWhile isNumberPart
  if rest.head?.any isWordStart then
    (malformedNumber (digits ++ rest.takeWhile isWordPart), rest.dropWhile isWordPart)
  else (token .intLiteral digits, rest)

/-- The longest lexeme at the front of `c :: cs`, and the characters behind it. -/
def next (c : Char) (cs : List Char) : Lexeme × List Char :=
  if isBlank c then (blank c, cs)
  else if c == '/' && cs.head? == some '/' then
    (comment (c :: cs.takeWhile (· != '\n')), cs.dropWhile (· != '\n'))
  else if c.isDigit then number (c :: cs)
  else if isWordStart c then
    let word := c :: cs.takeWhile isWordPart
    (token (.ofWord (String.ofList word)) word, cs.dropWhile isWordPart)
  else
    match symbol? (c :: cs) with
    | some s => (token (.symbol s) s.chars, (c :: cs).drop s.chars.length)
    | none => (stray c, cs)

/-! ### The cut loses nothing and makes progress -/

theorem chars_number (input : List Char) :
    (number input).1.chars ++ (number input).2 = input := by
  simp only [number]
  split <;> simp [chars, List.takeWhile_append_dropWhile]

/-- A lexeme and the rest make up the input. -/
theorem chars_next (c : Char) (cs : List Char) :
    (next c cs).1.chars ++ (next c cs).2 = c :: cs := by
  unfold next
  split
  · rfl
  split
  · simp [chars, List.takeWhile_append_dropWhile]
  split
  · exact chars_number _
  split
  · simp [chars, List.takeWhile_append_dropWhile]
  split
  · next s h =>
      have starts : s.chars <+: c :: cs := by
        simpa [symbol?] using List.find?_some h
      obtain ⟨rest, hr⟩ := starts
      simp [chars, ← hr]
  · rfl

theorem chars_number_ne_nil {c : Char} (cs : List Char) (h : c.isDigit) :
    (number (c :: cs)).1.chars ≠ [] := by
  have part : isNumberPart c := by simp [isNumberPart, h]
  simp only [number]
  split <;> simp [chars, part]

/-- No lexeme is empty. -/
theorem chars_next_ne_nil (c : Char) (cs : List Char) : (next c cs).1.chars ≠ [] := by
  unfold next
  split
  · simp [chars]
  split
  · simp [chars]
  split
  · next h => exact chars_number_ne_nil cs h
  split
  · simp [chars]
  split
  · next s _ => exact s.chars_ne_nil
  · simp [chars]

theorem length_next_lt (c : Char) (cs : List Char) : (next c cs).2.length < (c :: cs).length := by
  have whole := congrArg List.length (chars_next c cs)
  have some := List.length_pos_iff.2 (chars_next_ne_nil c cs)
  rw [List.length_append] at whole
  omega

end Lexeme

/-- Tail-recursive cut; `done` holds the finished lexemes, last first. -/
def lexemesAux (done : List Lexeme) : List Char → List Lexeme
  | [] => done.reverse
  | c :: cs => lexemesAux ((Lexeme.next c cs).1 :: done) (Lexeme.next c cs).2
termination_by input => input.length
decreasing_by exact Lexeme.length_next_lt c cs

/-- The lexemes of a text, in order. -/
def lexemes (input : List Char) : List Lexeme :=
  lexemesAux [] input

theorem lexemesAux_eq (done : List Lexeme) (input : List Char) :
    lexemesAux done input = done.reverse ++ lexemes input := by
  induction h : input.length using Nat.strongRecOn generalizing input done with
  | ind n ih =>
      cases input with
      | nil => simp [lexemes, lexemesAux]
      | cons c cs =>
          have lt := Lexeme.length_next_lt c cs
          unfold lexemes
          rw [lexemesAux, lexemesAux, ih _ (h ▸ lt) _ _ rfl, ih _ (h ▸ lt) [_] _ rfl]
          simp

theorem lexemes_nil : lexemes [] = [] := by
  simp [lexemes, lexemesAux]

theorem lexemes_cons (c : Char) (cs : List Char) :
    lexemes (c :: cs) = (Lexeme.next c cs).1 :: lexemes (Lexeme.next c cs).2 := by
  rw [lexemes, lexemesAux, lexemesAux_eq]
  rfl

/-! ### Problems -/

/-- Why a piece of the input is no token. -/
inductive LexicalProblem where
  /-- A byte that starts no token; `text` is its character if the byte is a whole one. -/
  | unexpectedCharacter (text : String)
  | malformedInteger
  deriving DecidableEq, Repr

namespace LexicalProblem

def code : LexicalProblem → String
  | unexpectedCharacter _ => "E0101"
  | malformedInteger => "E0102"

def message : LexicalProblem → String
  | unexpectedCharacter text => s!"unexpected character `{text}`"
  | malformedInteger => "malformed integer literal"

def diagnostic (problem : LexicalProblem) (span : Span) : Diagnostic :=
  ⟨.grammar, .error, problem.code, problem.message, span⟩

end LexicalProblem

/-! ### Placing -/

def utf8Length (cs : List Char) : Nat :=
  cs.foldl (fun n c => n + c.utf8Size) 0

/-- The problems of a stray character. Its bytes are refused one by one, and a byte that is only a
part of the character has no text of its own. -/
def strayDiagnostics (offset : Nat) (c : Char) : List Diagnostic :=
  let text := if c.utf8Size == 1 then c.toString else "?"
  (List.range c.utf8Size).map fun i =>
    (LexicalProblem.unexpectedCharacter text).diagnostic ⟨offset + i, offset + i + 1⟩

/-- The outcome of reading a text: its tokens without the closing one, its size in bytes, and what
was refused. -/
structure Lexed where
  tokens : List Token
  size : Nat
  diagnostics : List Diagnostic

namespace Lexed

/-- The tokens with the one that marks the end of the input. -/
def stream (lexed : Lexed) : List Token :=
  lexed.tokens ++ [Token.eof lexed.size]

/-- The state of placing: results so far, last first, and the offset of the next lexeme. -/
structure Placing where
  tokens : List Token
  diagnostics : List Diagnostic
  offset : Nat

def Placing.add (state : Placing) (lexeme : Lexeme) : Placing :=
  let stop := state.offset + utf8Length lexeme.chars
  match lexeme with
  | .blank _ | .comment _ => { state with offset := stop }
  | .token kind cs =>
      { state with
        tokens := ⟨kind, String.ofList cs, state.offset, stop⟩ :: state.tokens
        offset := stop }
  | .malformedNumber _ =>
      let refused := LexicalProblem.malformedInteger.diagnostic ⟨state.offset, stop⟩
      { state with diagnostics := refused :: state.diagnostics, offset := stop }
  | .stray c =>
      let refused := strayDiagnostics state.offset c
      { state with diagnostics := refused.reverse ++ state.diagnostics, offset := stop }

/-- Places the lexemes of a text one after the other. -/
def ofLexemes (pieces : List Lexeme) : Lexed :=
  let final := pieces.foldl Placing.add ⟨[], [], 0⟩
  ⟨final.tokens.reverse, final.offset, final.diagnostics.reverse⟩

end Lexed

/-- Reads the tokens of a text. -/
def lex (source : String) : Lexed :=
  Lexed.ofLexemes (lexemes source.toList)

end Workbench.Syntax
