import Workbench.Source.Span

/-!
# Tokens of the contract language

A token is a keyword, a symbol, an identifier or a literal, together with its text and its place.
The kinds are split by what the grammar asks of them: keywords and symbols are finite tables with
one spelling each, so the text of a token determines its kind.
-/

namespace Workbench.Syntax

open Source (Span)

/-! ### Spellings -/

/-- The reserved words, the two literals `true` and `false` excepted. -/
inductive Keyword where
  | contract
  | storage
  | function
  | publicly
  | privately
  | view
  | letIn
  | ifThen
  | elseThen
  | whileDo
  | returns
  | require
  | i32
  | bool
  deriving DecidableEq, Repr, Inhabited

namespace Keyword

/-- The spelling of a reserved word. -/
def text : Keyword → String
  | contract => "contract"
  | storage => "storage"
  | function => "function"
  | publicly => "public"
  | privately => "private"
  | view => "view"
  | letIn => "let"
  | ifThen => "if"
  | elseThen => "else"
  | whileDo => "while"
  | returns => "return"
  | require => "require"
  | i32 => "i32"
  | bool => "bool"

def all : List Keyword :=
  [contract, storage, function, publicly, privately, view, letIn, ifThen, elseThen, whileDo,
    returns, require, i32, bool]

theorem mem_all (k : Keyword) : k ∈ all := by
  cases k <;> decide

/-- The reserved word with a given spelling. -/
def ofText? (s : String) : Option Keyword :=
  all.find? fun k => k.text == s

end Keyword

/-- Punctuation and operators. -/
inductive Symbol where
  | lparen
  | rparen
  | lbrace
  | rbrace
  | comma
  | semi
  | colon
  | arrow
  | assign
  | eqEq
  | notEq
  | less
  | lessEq
  | greater
  | greaterEq
  | plus
  | minus
  | star
  | slash
  | percent
  | bang
  | andAnd
  | orOr
  deriving DecidableEq, Repr, Inhabited

namespace Symbol

/-- The spelling of a symbol, one or two characters. -/
def chars : Symbol → List Char
  | lparen => ['(']
  | rparen => [')']
  | lbrace => ['\x7b']
  | rbrace => ['\x7d']
  | comma => [',']
  | semi => [';']
  | colon => [':']
  | arrow => ['-', '>']
  | assign => ['=']
  | eqEq => ['=', '=']
  | notEq => ['!', '=']
  | less => ['<']
  | lessEq => ['<', '=']
  | greater => ['>']
  | greaterEq => ['>', '=']
  | plus => ['+']
  | minus => ['-']
  | star => ['*']
  | slash => ['/']
  | percent => ['%']
  | bang => ['!']
  | andAnd => ['&', '&']
  | orOr => ['|', '|']

/-- Every symbol; the two-character ones come first, so that the first match is the longest. -/
def all : List Symbol :=
  [arrow, eqEq, notEq, lessEq, greaterEq, andAnd, orOr, lparen, rparen, lbrace, rbrace, comma, semi,
    colon, assign, less, greater, plus, minus, star, slash, percent, bang]

theorem mem_all (s : Symbol) : s ∈ all := by
  cases s <;> decide

theorem chars_ne_nil (s : Symbol) : s.chars ≠ [] := by
  cases s <;> decide

end Symbol

/-! ### Tokens -/

namespace Token

/-- What a token is to the grammar. -/
inductive Kind where
  | eof
  | ident
  | intLiteral
  | boolLiteral
  | keyword (word : Keyword)
  | symbol (symbol : Symbol)
  deriving DecidableEq, Repr, Inhabited

end Token

/-- A token with its text and place. -/
structure Token where
  kind : Token.Kind
  text : String
  span : Span
  deriving DecidableEq, Repr, Inhabited

namespace Token

/-- The token that stands for the end of an input of the given size. -/
def eof (size : Nat) : Token :=
  ⟨.eof, "", size, size⟩

/-- The kind of a word, the text of which starts with a letter or an underscore. -/
def Kind.ofWord (word : String) : Kind :=
  match Keyword.ofText? word with
  | some k => .keyword k
  | none => if word == "true" || word == "false" then .boolLiteral else .ident

end Token

end Workbench.Syntax
