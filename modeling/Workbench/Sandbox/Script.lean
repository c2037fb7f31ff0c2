import Workbench.Sandbox.Word

/-!
# Scripts

The language of the shell: commands with words and redirections, joined by pipes, by what has to
succeed or fail before, and by the order in which they run; conditions, loops and choices over them;
and functions.

A script is read line by line. What stands in front of a line that is wrong is still a script.
-/

namespace Workbench.Sandbox

/-! ### Tokens -/

inductive Token where
  | word (word : Word)
  /-- A redirection of a channel, to or from the word behind it. -/
  | redirection (channel : Nat) (operator : String)
  /-- The text up to a line of its own, as input of a channel. -/
  | here (channel : Nat) (body : Word)
  | operator (text : String)
  | finish
  /-- What follows cannot be read. -/
  | broken (problem : String)
  deriving DecidableEq, Repr, Inhabited

/-- A token with the number of the line in which it ends. -/
abbrev Placed := Nat × Token

/-- The operators, longer ones first. -/
def operators : List String := ["&&", "||", ";;", ";", "&", "|", "(", ")", "\n"]

/-- The operators of redirections, longer ones first. -/
def redirectionOperators : List String := ["<<-", "<<", "<&", "<>", ">>", ">&", ">|", "<", ">"]

/-- The first of some operators at the start of a text. -/
def operatorAt? (operators : List String) (text : List Char) : Option String :=
  operators.find? fun o => o.toList.isPrefixOf text

/-- Text that is to follow: up to which line, whether tabs in front of lines are dropped, and
whether parts of it are replaced. -/
structure Expected where
  limit : String
  dropsTabs : Bool
  literal : Bool

/-- The lines up to a limit, and what follows. -/
def linesUpTo (e : Expected) (fuel : Nat) (done text : List Char) : List Char × List Char :=
  match fuel with
  | 0 => (done, text)
  | fuel + 1 =>
      let text := if e.dropsTabs then text.dropWhile (· == '\t') else text
      let line := text.takeWhile (· != '\n')
      let rest := text.drop (line.length + 1)
      if text.isEmpty then (done, [])
      else if line = e.limit.toList then (done, rest)
      else linesUpTo e fuel (done ++ text.take (line.length + 1)) rest

/-- The tokens of a text that were read so far, latest first. -/
structure Lexing where
  line : Nat := 1
  tokens : List Placed := []
  /-- The texts that begin with the next line. -/
  expected : List Expected := []
  /-- The texts that were read, latest first. -/
  bodies : List Word := []

namespace Lexing

def push (l : Lexing) (t : Token) : Lexing :=
  { l with tokens := (l.line, t) :: l.tokens }

/-- With the line ends of a text counted that was passed over. -/
def count (l : Lexing) (before after : List Char) : Lexing :=
  { l with line := l.line + (before.count '\n' - after.count '\n') }

/-- With the texts read that begin here. -/
def readExpected (l : Lexing) (text : List Char) : Lexing × List Char :=
  let (bodies, rest) := l.expected.foldl
    (fun (bodies, text) e =>
      let (body, rest) := linesUpTo e (text.length + 1) [] text
      let literal : Word := ⟨[.text (String.ofList body)], true⟩
      let word := if e.literal then literal else (Word.ofQuotedText body).toOption.getD literal
      (word :: bodies, rest))
    (l.bodies, text)
  (({ l with expected := [], bodies := bodies }).count text rest, rest)

/-- All tokens in order, with the texts at their places. -/
def finished (l : Lexing) : List Placed :=
  fill l.bodies.reverse l.tokens.reverse
where
  /-- Puts texts at their places. -/
  fill : List Word → List Placed → List Placed
    | body :: bodies, (line, .here channel _) :: rest =>
        (line, .here channel body) :: fill bodies rest
    | bodies, t :: rest => t :: fill bodies rest
    | _, [] => []

end Lexing

/-- A word, or what is wrong with it. -/
def readToken (l : Lexing) (text : List Char) : Except Lexing (Lexing × Word × List Char) :=
  match readWord endsWord (text.length + 1) .empty text with
  | .ok (w, rest) => .ok (l.count text rest, w, rest)
  | .error problem => .error ((l.count text []).push (.broken problem))

/-- Whether the operator of a redirection stands here, perhaps behind a channel. -/
def redirectionAt? (text : List Char) : Option (Nat × String × List Char) :=
  let start (channel? : Option Nat) (text : List Char) :=
    (operatorAt? redirectionOperators text).map fun o =>
      (channel?.getD (if o.toList.head? = some '<' then 0 else 1), o, text.drop o.length)
  match text with
  | c :: rest =>
      if c.isDigit then start (some (c.toNat - '0'.toNat)) rest else start none text
  | [] => none

def tokensOf (fuel : Nat) (l : Lexing) (text : List Char) : Lexing :=
  match fuel, text with
  | 0, _ | _, [] => l.push .finish
  | fuel + 1, '\\' :: '\n' :: rest => tokensOf fuel { l with line := l.line + 1 } rest
  | fuel + 1, c :: rest =>
      if c == ' ' || c == '\t' then tokensOf fuel l rest
      else if c == '#' then tokensOf fuel l (rest.dropWhile (· != '\n'))
      else if c == '\n' then
        let l := ({ l with line := l.line + 1 }).push (.operator "\n")
        let (l, rest) := l.readExpected rest
        tokensOf fuel l rest
      else
        match redirectionAt? (c :: rest) with
        | some (channel, o, rest) =>
            if o = "<<" ∨ o = "<<-" then
              let rest := rest.dropWhile fun c => c == ' ' || c == '\t'
              match readToken l rest with
              | .error l => l
              | .ok (l, w, rest) =>
                  let limit := String.join (w.fragments.map fun
                    | .text t => t
                    | _ => "")
                  let e : Expected := ⟨limit, o = "<<-", w.quoted⟩
                  tokensOf fuel
                    { l.push (.here channel .empty) with expected := l.expected ++ [e] } rest
            else tokensOf fuel (l.push (.redirection channel o)) rest
        | none =>
            match operatorAt? operators (c :: rest) with
            | some o => tokensOf fuel (l.push (.operator o)) ((c :: rest).drop o.length)
            | none =>
                match readToken l (c :: rest) with
                | .error l => l
                | .ok (l, w, rest) => tokensOf fuel (l.push (.word w)) rest

/-! ### Scripts -/

/-- Where the output of a command goes, or its input comes from. -/
inductive Redirection where
  | toFile (channel : Nat) (append : Bool) (target : Word)
  | fromFile (channel : Nat) (source : Word)
  | fromText (channel : Nat) (body : Word)
  /-- A channel becomes what another one is, or is closed. -/
  | duplicate (channel : Nat) (target : Word)
  deriving DecidableEq, Repr, Inhabited

inductive Script where
  | nothing
  /-- A command with the variables that are set before it. -/
  | command (line : Nat) (sets : List (String × Word)) (words : List Word)
      (redirections : List Redirection)
  | redirected (line : Nat) (body : Script) (redirections : List Redirection)
  | subshell (body : Script)
  | ifThen (cond yes no : Script)
  | loop (whileTrue : Bool) (cond body : Script)
  /-- A round for each field of the words; without words for each parameter. -/
  | forEach (line : Nat) (name : String) (words : Option (List Word)) (body : Script)
  /-- The first case of which a pattern fits. -/
  | choose (line : Nat) (subject : Word) (cases : List (List Word × Script))
  | define (name : String) (body : Script)
  | pipe (left right : Script)
  | negate (body : Script)
  | both (left right : Script)
  | either (left right : Script)
  | inOrder (left right : Script)
  | background (body : Script)
  deriving Inhabited

/-- What is wrong with a script: the line and the wording. -/
abbrev Complaint := Nat × String

/-- Something read from tokens. -/
abbrev Parsing := StateT (List Placed) (Except Complaint)

/-- The words that mean something where a command is expected. -/
def keywords : List String :=
  ["!", "case", "do", "done", "elif", "else", "esac", "fi", "for", "if", "in", "then", "until",
    "while", "\x7b", "\x7d"]

/-- The keywords and operators that end a list of commands. -/
def closers : List String :=
  ["do", "done", "elif", "else", "esac", "fi", "then", "\x7d", ")", ";;"]

namespace Parsing

/-- The next token with its line. -/
def next : Parsing Placed := do
  return (← get).head?.getD (1, .finish)

def skip : Parsing Unit :=
  modify fun ts => if ts.length ≤ 1 then ts else ts.drop 1

def keyword? : Parsing (Option String) := do
  match (← next).2 with
  | .word w => return w.plain?.filter keywords.contains
  | _ => return none

def operator? : Parsing (Option String) := do
  match (← next).2 with
  | .operator o => return some o
  | _ => return none

/-- Fails at the next token, which is told by its name if keywords count here. -/
def refuse {α : Type} (expected? : Option String) : Parsing α := do
  let (line, token) ← next
  let keyword? ← keyword?
  let name := match token with
    | .word _ => keyword?.elim "word" fun k => s!"\"{k}\""
    | .redirection .. | .here .. => "redirection"
    | .operator "\n" => "newline"
    | .operator o => s!"\"{o}\""
    | .finish | .broken _ => "end of file"
  match token, expected? with
  | .broken problem, _ => throw (line, problem)
  | _, some expected => throw (line, s!"{name} unexpected (expecting \"{expected}\")")
  | _, none => throw (line, s!"{name} unexpected")

/-- Passes over line ends. -/
def skipLines : Parsing Unit :=
  modify fun ts => ts.dropWhile fun (_, t) => t == .operator "\n"

/-- Passes over an operator, if it comes. -/
def passOperator (o : String) : Parsing Bool := do
  if (← operator?) = some o then
    skip
    return true
  return false

/-- Passes over a keyword, if it comes. -/
def passKeyword (word : String) : Parsing Bool := do
  if (← keyword?) = some word then
    skip
    return true
  return false

/-- Passes over a keyword that has to come. -/
def demandKeyword (word : String) : Parsing Unit := do
  if !(← passKeyword word) then refuse (some word)

/-- Passes over an operator that has to come. -/
def demandOperator (o : String) : Parsing Unit := do
  if !(← passOperator o) then refuse (some o)

/-- Whether a list of commands ends here. -/
def atCloser : Parsing Bool := do
  match (← next).2 with
  | .operator o => return closers.contains o
  | .word _ => return (← keyword?).any closers.contains
  | _ => return false

/-- Reads a redirection, if one comes. -/
def redirection? : Parsing (Option Redirection) := do
  match (← next).2 with
  | .here channel body =>
      skip
      return some (.fromText channel body)
  | .redirection channel o =>
      skip
      match (← next).2 with
      | .word w =>
          skip
          return some (match o with
            | ">>" => .toFile channel true w
            | ">" | ">|" => .toFile channel false w
            | ">&" | "<&" => .duplicate channel w
            | _ => .fromFile channel w)
      | _ => refuse none
  | _ => return none

def redirections (fuel : Nat) : Parsing (List Redirection) :=
  match fuel with
  | 0 => return []
  | fuel + 1 => do
      match ← redirection? with
      | some r => return r :: (← redirections fuel)
      | none => return []

end Parsing

open Parsing

/-- The variable that a word sets. -/
def setting? (w : Word) : Option (String × Word) :=
  match w.fragments with
  | .text text :: rest =>
      let name := text.toList.takeWhile isNameChar
      match text.toList.drop name.length with
      | '=' :: value =>
          if isName name then
            some (String.ofList name, ⟨.text (String.ofList value) :: rest, true⟩)
          else none
      | _ => none
  | _ => none

/-- The words and redirections of a command. -/
structure Parts where
  sets : List (String × Word) := []
  words : List Word := []
  redirections : List Redirection := []

/-- Reads words and redirections of a command. -/
def readParts (fuel : Nat) (p : Parts) : Parsing Parts :=
  match fuel with
  | 0 => return p
  | fuel + 1 => do
      match ← redirection? with
      | some r => readParts fuel { p with redirections := p.redirections ++ [r] }
      | none =>
          match (← next).2 with
          | .word w =>
              skip
              match if p.words.isEmpty then setting? w else none with
              | some s => readParts fuel { p with sets := p.sets ++ [s] }
              | none => readParts fuel { p with words := p.words ++ [w] }
          | .broken _ => refuse none
          | _ => return p

def readWords (fuel : Nat) : Parsing (List Word) :=
  match fuel with
  | 0 => return []
  | fuel + 1 => do
      match (← next).2 with
      | .word w =>
          skip
          return w :: (← readWords fuel)
      | _ => return []

/-- Reads the patterns of a case behind the first one. -/
def readPatterns (fuel : Nat) : Parsing (List Word) :=
  match fuel with
  | 0 => return []
  | fuel + 1 => do
      let pattern ← match (← next).2 with
        | .word w => pure w
        | _ => pure .empty
      skip
      if ← passOperator "|" then return pattern :: (← readPatterns fuel)
      else
        demandOperator ")"
        return [pattern]

mutual

/-- Reads commands up to what ends a list of them. What is to follow a list at the end of a script
is found missing behind it. -/
def readList (fuel : Nat) (mayBeEmpty : Bool) : Parsing Script :=
  match fuel with
  | 0 => refuse none
  | fuel + 1 => do
      skipLines
      if (← next).2 = .finish || mayBeEmpty && (← atCloser) then return .nothing
      let first ← readChain fuel
      match ← operator? with
      | some "&" => skip; return .inOrder (.background first) (← readList fuel true)
      | some ";" | some "\n" => skip; return .inOrder first (← readList fuel true)
      | _ => return first

/-- Reads commands up to the end of a line. -/
def readLine (fuel : Nat) : Parsing Script :=
  match fuel with
  | 0 => refuse none
  | fuel + 1 => do
      if ← passOperator "\n" then return .nothing
      if (← next).2 = .finish then return .nothing
      let first ← readChain fuel
      match ← operator? with
      | some "&" => skip; return .inOrder (.background first) (← readLine fuel)
      | some ";" => skip; return .inOrder first (← readLine fuel)
      | some "\n" => skip; return first
      | _ => if (← next).2 = .finish then return first else refuse none

/-- Reads pipelines that depend on the success or failure of those before them. -/
def readChain (fuel : Nat) : Parsing Script :=
  match fuel with
  | 0 => refuse none
  | fuel + 1 => do readMore fuel (← readPipeline fuel)

/-- Reads what depends on a first part. -/
def readMore (fuel : Nat) (first : Script) : Parsing Script :=
  match fuel with
  | 0 => refuse none
  | fuel + 1 => do
      if ← passOperator "&&" then
        skipLines
        readMore fuel (.both first (← readPipeline fuel))
      else if ← passOperator "||" then
        skipLines
        readMore fuel (.either first (← readPipeline fuel))
      else return first

/-- Reads commands joined by pipes. -/
def readPipeline (fuel : Nat) : Parsing Script :=
  match fuel with
  | 0 => refuse none
  | fuel + 1 => do
      if ← passKeyword "!" then return .negate (← readPiped fuel)
      else readPiped fuel

/-- Reads commands joined by pipes, behind a negation. -/
def readPiped (fuel : Nat) : Parsing Script :=
  match fuel with
  | 0 => refuse none
  | fuel + 1 => do
      let first ← readSingle fuel
      if ← passOperator "|" then
        skipLines
        return .pipe first (← readPiped fuel)
      return first

def readSingle (fuel : Nat) : Parsing Script :=
  match fuel with
  | 0 => refuse none
  | fuel + 1 => do
      let line := (← next).1
      match (← next).2, ← keyword? with
      | .operator "(", _ =>
          skip
          let body ← readList fuel false
          demandOperator ")"
          wrap line (.subshell body) fuel
      | .word _, some "\x7b" =>
          skip
          let body ← readList fuel false
          demandKeyword "\x7d"
          wrap line body fuel
      | .word _, some "if" => skip; wrap line (← readBranches fuel) fuel
      | .word _, some "while" => skip; wrap line (← readLoop fuel true) fuel
      | .word _, some "until" => skip; wrap line (← readLoop fuel false) fuel
      | .word _, some "for" => skip; wrap line (← readFor fuel) fuel
      | .word _, some "case" => skip; wrap line (← readChoice fuel) fuel
      | .word _, some _ => refuse none
      | .word w, none =>
          let parts ← readParts (← get).length {}
          if parts.words = [w] && parts.sets.isEmpty && parts.redirections.isEmpty &&
              (← operator?) = some "(" then
            skip
            demandOperator ")"
            let name := w.plain?.getD ""
            if !isName name.toList then throw ((← next).1, "Bad function name")
            skipLines
            return .define name (← readSingle fuel)
          return .command line parts.sets parts.words parts.redirections
      | .redirection .., _ | .here .., _ =>
          let parts ← readParts (← get).length {}
          return .command line parts.sets parts.words parts.redirections
      | _, _ => refuse none
where
  /-- A command with the redirections behind it. -/
  wrap (line : Nat) (body : Script) (fuel : Nat) : Parsing Script := do
    match ← redirections (fuel + 1) with
    | [] => return body
    | found => return .redirected line body found

/-- Reads a loop behind its keyword. -/
def readLoop (fuel : Nat) (whileTrue : Bool) : Parsing Script :=
  match fuel with
  | 0 => refuse none
  | fuel + 1 => do
      let cond ← readList fuel false
      demandKeyword "do"
      let body ← readList fuel false
      demandKeyword "done"
      return .loop whileTrue cond body

/-- Reads a loop over fields behind its keyword. -/
def readFor (fuel : Nat) : Parsing Script :=
  match fuel with
  | 0 => refuse none
  | fuel + 1 => do
      let (line, token) ← next
      let name := match token with
        | .word w => w.plain?.getD ""
        | _ => ""
      if !isName name.toList then throw (line, "Bad for loop variable")
      skip
      skipLines
      let words? ←
        if ← passKeyword "in" then
          let words ← readWords (← get).length
          match ← operator? with
          | some ";" | some "\n" => skip
          | _ => refuse none
          pure (some words)
        else
          let _ ← passOperator ";"
          pure none
      skipLines
      demandKeyword "do"
      let body ← readList fuel false
      demandKeyword "done"
      return .forEach line name words? body

/-- Reads a choice behind its keyword. -/
def readChoice (fuel : Nat) : Parsing Script :=
  match fuel with
  | 0 => refuse none
  | fuel + 1 => do
      let (line, token) ← next
      match token with
      | .word subject =>
          skip
          skipLines
          demandKeyword "in"
          return .choose line subject (← readCases fuel)
      | _ => refuse (some "word")

def readCases (fuel : Nat) : Parsing (List (List Word × Script)) :=
  match fuel with
  | 0 => refuse none
  | fuel + 1 => do
      skipLines
      if ← passKeyword "esac" then return []
      let _ ← passOperator "("
      let patterns ← readPatterns (← get).length
      let body ← readList fuel true
      skipLines
      if ← passKeyword "esac" then return [(patterns, body)]
      demandOperator ";;"
      return (patterns, body) :: (← readCases fuel)

/-- Reads a condition and what depends on it, behind the keyword. -/
def readBranches (fuel : Nat) : Parsing Script :=
  match fuel with
  | 0 => refuse none
  | fuel + 1 => do
      let cond ← readList fuel false
      demandKeyword "then"
      let yes ← readList fuel false
      if ← passKeyword "elif" then return .ifThen cond yes (← readBranches fuel)
      let no ← if ← passKeyword "else" then readList fuel false else pure .nothing
      demandKeyword "fi"
      return .ifThen cond yes no

end

/-- The lines of a script, and what is wrong with the one behind them. -/
def readLines (fuel : Nat) (tokens : List Placed) : List Script × Option Complaint :=
  match fuel, tokens with
  | 0, _ | _, [] | _, [(_, .finish)] => ([], none)
  | fuel + 1, tokens =>
      match (readLine (16 * tokens.length + 16)).run tokens with
      | .error complaint => ([], some complaint)
      | .ok (line, rest) =>
          let (lines, complaint?) := readLines fuel rest
          (line :: lines, complaint?)

/-- The lines of the script of a text, and what is wrong with the one behind them. -/
def Script.parse (text : String) : List Script × Option Complaint :=
  let chars := text.toList
  let tokens := (tokensOf (chars.length + 1) {} chars).finished
  readLines (tokens.length + 1) tokens

end Workbench.Sandbox
