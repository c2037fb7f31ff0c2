import Workbench.Syntax.Lexeme
import Workbench.Syntax.Tree

/-!
# Reading syntax trees from tokens

A recursive-descent reader with one token of lookahead, two before an assignment. The first problem
ends it. Operators are read by precedence climbing: `expr` reads an operand and then folds operators
of at least a given strength onto it.

How deep a contract may nest is part of the language. Each construct that nests spends one unit of
`room`, a fold included because it puts its left operand one level deeper; without room the input is
refused. The room is therefore also what the recursion descends on.
-/

namespace Workbench.Syntax

open Source (Span Diagnostic)
open Lang (ValueType UnaryOp BinaryOp)

/-! ### Problems -/

/-- Why a sequence of tokens is no contract. -/
inductive GrammarProblem where
  /-- Something else was expected; `found` is `none` at the end of the input. -/
  | expected (what : String) (found : Option String)
  | trailingInput
  | nestingTooDeep
  | literalTooLarge
  deriving DecidableEq, Repr

namespace GrammarProblem

def code : GrammarProblem → String
  | literalTooLarge => "E0102"
  | expected .. => "E0103"
  | trailingInput => "E0104"
  | nestingTooDeep => "E0105"

def message : GrammarProblem → String
  | literalTooLarge => "integer literal is too large"
  | expected what none => s!"expected {what}, found end of input"
  | expected what (some found) => s!"expected {what}, found `{found}`"
  | trailingInput => "unexpected input after contract body"
  | nestingTooDeep => "nesting is too deep"

end GrammarProblem

structure GrammarError where
  problem : GrammarProblem
  span : Span
  deriving DecidableEq, Repr

def GrammarError.diagnostic (e : GrammarError) : Diagnostic :=
  ⟨.grammar, .error, e.problem.code, e.problem.message, e.span⟩

/-! ### Token streams -/

/-- The tokens that are left, and the size of the input, where the closing token stands. -/
structure Stream where
  rest : List Token
  size : Nat

namespace Stream

/-- The next token; at the end of the input the closing one. -/
def peek (s : Stream) : Token :=
  s.rest.head?.getD (Token.eof s.size)

/-- The kind of the token behind the next one. -/
def secondKind (s : Stream) : Token.Kind :=
  match s.rest with
  | _ :: t :: _ => t.kind
  | _ => .eof

/-- Drops the next token; the end of the input stays. -/
def advance (s : Stream) : Stream :=
  { s with rest := s.rest.tail }

end Stream

/-- A reader of some part of the grammar. -/
abbrev Parser (α : Type) := StateT Stream (Except GrammarError) α

namespace Parser

def peek : Parser Token :=
  return (← get).peek

def advance : Parser Token := do
  let s ← get
  set s.advance
  return s.peek

/-- Refuses the input at the next token. -/
def refuse {α : Type} (problem : GrammarProblem) : Parser α := do
  throw ⟨problem, (← peek).span⟩

/-- Refuses the next token for want of something else. -/
def unexpected {α : Type} (what : String) : Parser α := do
  let token ← peek
  refuse (.expected what (if token.kind = .eof then none else some token.text))

/-- Takes the next token if it has the given kind. -/
def eat (kind : Token.Kind) : Parser Bool := do
  if (← peek).kind = kind then
    let _ ← advance
    return true
  else
    return false

/-- Takes a token of the given kind and refuses any other. -/
def expect (kind : Token.Kind) (what : String) : Parser Token := do
  if (← peek).kind = kind then advance else unexpected what

def expectSymbol (symbol : Symbol) : Parser Token :=
  expect (.symbol symbol) s!"`{String.ofList symbol.chars}`"

def expectName : Parser Name := do
  let token ← expect .ident "an identifier"
  return ⟨token.text, token.span⟩

def atSymbol (symbol : Symbol) : Parser Bool :=
  return (← peek).kind = .symbol symbol

/-! ### Repetition

Each item takes at least one token, so as many rounds as there are tokens suffice. -/

/-- Items separated by commas, at least one. -/
def separatedAux {α : Type} (item : Parser α) : Nat → List α → Parser (List α)
  | 0, done => return done.reverse
  | rounds + 1, done => do
      let x ← item
      if ← eat (.symbol .comma) then separatedAux item rounds (x :: done)
      else return (x :: done).reverse

/-- The items up to a closing parenthesis, separated by commas. -/
def arguments {α : Type} (item : Parser α) : Parser (List α) := do
  if ← atSymbol .rparen then return []
  else separatedAux item ((← get).rest.length + 1) []

def untilBraceAux {α : Type} (item : Parser α) : Nat → List α → Parser (List α)
  | 0, done => return done.reverse
  | rounds + 1, done => do
      let kind := (← peek).kind
      if kind = .symbol .rbrace ∨ kind = .eof then return done.reverse
      else
        let x ← item
        untilBraceAux item rounds (x :: done)

/-- Items up to a closing brace or the end of the input. -/
def untilBrace {α : Type} (item : Parser α) : Parser (List α) := do
  untilBraceAux item (← get).rest.length []

end Parser

open Workbench.Syntax.Parser

/-! ### Types and operators -/

def parseType : Parser ValueType := do
  match (← peek).kind with
  | .keyword .i32 => let _ ← advance; return .i32
  | .keyword .bool => let _ ← advance; return .bool
  | _ => unexpected "a type (`i32` or `bool`)"

/-- The operator that a token stands for in front of its operand. -/
def unaryOp? : Token.Kind → Option UnaryOp
  | .symbol .minus => some .neg
  | .symbol .bang => some .not
  | _ => none

/-- The operator that a token stands for between its operands. -/
def binaryOp? : Token.Kind → Option BinaryOp
  | .symbol .plus => some .add
  | .symbol .minus => some .sub
  | .symbol .star => some .mul
  | .symbol .slash => some .div
  | .symbol .percent => some .rem
  | .symbol .eqEq => some .eq
  | .symbol .notEq => some .ne
  | .symbol .less => some .lt
  | .symbol .lessEq => some .le
  | .symbol .greater => some .gt
  | .symbol .greaterEq => some .ge
  | .symbol .andAnd => some .and
  | .symbol .orOr => some .or
  | _ => none

/-- The number that digits stand for; underscores do not count. -/
def literalValue (text : String) : Nat :=
  text.toList.foldl (fun n c => if c.isDigit then 10 * n + (c.toNat - '0'.toNat) else n) 0

/-- The largest value that a literal may spell. -/
def maxLiteral : Nat := 1 <<< 63 - 1

/-! ### Expressions -/

mutual

/-- An expression whose outermost operators have at least the given strength. -/
def parseExpr (room : Nat) (least : Nat) : Parser Expr :=
  match room with
  | 0 => refuse .nestingTooDeep
  | room + 1 => do
      let first ← parseUnary room
      parseFolds room least first
termination_by 3 * room

/-- Folds the operators of at least the given strength onto a finished left operand. -/
def parseFolds (room : Nat) (least : Nat) (lhs : Expr) : Parser Expr := do
  match binaryOp? (← peek).kind with
  | none => return lhs
  | some op =>
      if op.strength < least then return lhs
      else
        let _ ← advance
        match room with
        | 0 => refuse .nestingTooDeep
        | room + 1 => do
            let rhs ← parseExpr room (op.strength + 1)
            parseFolds room least (.binary op lhs rhs (lhs.span.merge rhs.span))
termination_by 3 * room

/-- An operand with the operators in front of it. -/
def parseUnary (room : Nat) : Parser Expr := do
  match unaryOp? (← peek).kind with
  | none => parsePrimary room
  | some op =>
      match room with
      | 0 => refuse .nestingTooDeep
      | room + 1 => do
          let start ← advance
          let operand ← parseUnary room
          return .unary op operand (start.span.merge operand.span)
termination_by 3 * room + 2

/-- A literal, a name, a call or an expression in parentheses. -/
def parsePrimary (room : Nat) : Parser Expr := do
  let token ← peek
  match token.kind with
  | .intLiteral => do
      let _ ← advance
      let value := literalValue token.text
      if value ≤ maxLiteral then return .int value token.span
      else throw ⟨.literalTooLarge, token.span⟩
  | .boolLiteral => do
      let _ ← advance
      return .bool (token.text == "true") token.span
  | .ident => do
      let callee ← expectName
      if ← eat (.symbol .lparen) then
        let args ← arguments (parseExpr room 1)
        let close ← expectSymbol .rparen
        return .call callee args (callee.span.merge close.span)
      else return .name callee.text callee.span
  | .symbol .lparen => do
      let _ ← advance
      let inner ← parseExpr room 1
      let close ← expectSymbol .rparen
      return inner.withSpan (token.span.merge close.span)
  | _ => unexpected "an expression"
termination_by 3 * room + 1

end

/-- An expression in parentheses, which do not widen its range. -/
def parseCondition (room : Nat) : Parser Expr := do
  let _ ← expectSymbol .lparen
  let e ← parseExpr room 1
  let _ ← expectSymbol .rparen
  return e

/-! ### Statements -/

/-- Ends a statement with its semicolon; `build` receives the range. -/
def finishStmt (start : Span) (build : Span → Stmt) : Parser Stmt := do
  let close ← expectSymbol .semi
  return build (start.merge close.span)

/-- A statement that holds no block, by its first token. -/
def parseSimple (room : Nat) : Parser Stmt := do
  let start ← peek
  match start.kind with
  | .keyword .letIn => do
      let _ ← advance
      let name ← expectName
      let type ← if ← eat (.symbol .colon) then some <$> parseType else pure none
      let _ ← expectSymbol .assign
      let value ← parseExpr room 1
      finishStmt start.span (.letIn name type value)
  | .keyword .returns => do
      let _ ← advance
      let value ← if ← atSymbol .semi then pure none else some <$> parseExpr room 1
      finishStmt start.span (.returns value)
  | .keyword .require => do
      let _ ← advance
      let cond ← parseCondition room
      finishStmt start.span (.require cond)
  | kind => do
      if kind = .ident ∧ (← get).secondKind = .symbol .assign then
        let target ← expectName
        let _ ← advance
        let value ← parseExpr room 1
        finishStmt start.span (.assign target value)
      else
        let value ← parseExpr room 1
        finishStmt start.span (.eval value)

mutual

/-- Statements in braces. -/
def parseBlock (room : Nat) : Parser Block :=
  match room with
  | 0 => refuse .nestingTooDeep
  | room + 1 => do
      let start ← expectSymbol .lbrace
      let stmts ← untilBrace (parseStmt room)
      let close ← expectSymbol .rbrace
      return ⟨stmts, start.span.merge close.span⟩
termination_by 2 * room

def parseStmt (room : Nat) : Parser Stmt := do
  let start ← peek
  match start.kind with
  | .keyword .ifThen => parseIf room
  | .keyword .whileDo => do
      let _ ← advance
      let cond ← parseCondition room
      let body ← parseBlock room
      return .whileDo cond body (start.span.merge body.span)
  | _ => parseSimple room
termination_by 2 * room + 1

/-- A conditional, its first word included. -/
def parseIf (room : Nat) : Parser Stmt :=
  match room with
  | 0 => refuse .nestingTooDeep
  | room + 1 => do
      let start ← advance
      let cond ← parseCondition room
      let yes ← parseBlock room
      if ← eat (.keyword .elseThen) then
        let no ←
          if (← peek).kind = .keyword .ifThen then do
            let nested ← parseIf room
            pure (Block.mk [nested] nested.span)
          else parseBlock room
        return .ifThen cond yes (some no) ((start.span.merge yes.span).merge no.span)
      else return .ifThen cond yes none (start.span.merge yes.span)
termination_by 2 * room

end

/-! ### Declarations -/

/-- How deep the blocks and expressions of a contract may nest. -/
def maxDepth : Nat := 256

/-- A storage variable, its first word included. -/
def parseStorage : Parser StorageDecl := do
  let start ← advance
  let name ← expectName
  let _ ← expectSymbol .colon
  let type ← parseType
  let close ← expectSymbol .semi
  return ⟨name, type, start.span.merge close.span⟩

/-- A parameter of a function. -/
def parseParam : Parser Param := do
  let name ← expectName
  let _ ← expectSymbol .colon
  return ⟨name, ← parseType⟩

/-- The words behind the parameters: whether the function is public and whether it is a view. They
may come in any number and order, and the last of `public` and `private` counts. -/
def parseModifiersAux : Nat → Bool × Bool → Parser (Bool × Bool)
  | 0, flags => return flags
  | rounds + 1, (isPublic, isView) => do
      match (← peek).kind with
      | .keyword .publicly => let _ ← advance; parseModifiersAux rounds (true, isView)
      | .keyword .privately => let _ ← advance; parseModifiersAux rounds (false, isView)
      | .keyword .view => let _ ← advance; parseModifiersAux rounds (isPublic, true)
      | _ => return (isPublic, isView)

/-- The words behind the parameters of a function. -/
def parseModifiers : Parser (Bool × Bool) := do
  parseModifiersAux (← get).rest.length (false, false)

/-- A function, its first word included. -/
def parseFunction : Parser FunctionDecl := do
  let start ← advance
  let name ← expectName
  let _ ← expectSymbol .lparen
  let params ← arguments parseParam
  let _ ← expectSymbol .rparen
  let (isPublic, isView) ← parseModifiers
  let result ← if ← eat (.symbol .arrow) then some <$> parseType else pure none
  let body ← parseBlock maxDepth
  return ⟨name, params, result, isPublic, isView, body, start.span.merge body.span⟩

/-- The declarations up to the closing brace: storage variables and functions in any order. -/
def parseDeclsAux : Nat → List StorageDecl → List FunctionDecl →
    Parser (List StorageDecl × List FunctionDecl)
  | 0, storage, functions => return (storage.reverse, functions.reverse)
  | rounds + 1, storage, functions => do
      match (← peek).kind with
      | .keyword .storage => do
          let decl ← parseStorage
          parseDeclsAux rounds (decl :: storage) functions
      | .keyword .function => do
          let decl ← parseFunction
          parseDeclsAux rounds storage (decl :: functions)
      | .symbol .rbrace => return (storage.reverse, functions.reverse)
      | _ => unexpected "`storage`, `function` or `\x7d`"

/-- A whole contract, up to the end of the input. -/
def parseContract : Parser Contract := do
  let start ← expect (.keyword .contract) "`contract`"
  let name ← expectName
  let _ ← expectSymbol .lbrace
  let (storage, functions) ← parseDeclsAux ((← get).rest.length + 1) [] []
  let close ← expectSymbol .rbrace
  if (← peek).kind = .eof then
    return ⟨name, storage, functions, start.span.merge close.span⟩
  else refuse .trailingInput

/-! ### Reading a text -/

/-- Reads the contract from the tokens of a text. -/
def Contract.ofStream (stream : Stream) : Except GrammarError Contract :=
  parseContract.run' stream

/-- Reads a contract from a text. What the lexer refused is reported in full and keeps the grammar
from being tried; otherwise the first problem of the grammar is the only message. -/
def parse (source : String) : Except (List Diagnostic) Contract :=
  let lexed := lex source
  if lexed.diagnostics.isEmpty then
    match Contract.ofStream ⟨lexed.tokens, lexed.size⟩ with
    | .ok contract => .ok contract
    | .error e => .error [e.diagnostic]
  else .error lexed.diagnostics

end Workbench.Syntax
