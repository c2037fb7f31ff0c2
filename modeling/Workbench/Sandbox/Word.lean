/-!
# Words of scripts

A word is text with parts that are replaced when its command runs: parameters, the output of
commands, and values of arithmetic. Text between single quotes stands for itself; between double
quotes parts are still replaced, but what they bring in is not cut into fields.
-/

namespace Workbench.Sandbox

/-! ### Words -/

inductive Fragment where
  | text (text : String)
  /-- The value of a parameter; with an operator behind its name, what that makes of it. -/
  | parameter (name operator operand : String) (quoted : Bool)
  /-- What the commands of a script write. -/
  | output (script : String) (quoted : Bool)
  | arithmetic (expression : String) (quoted : Bool)
  deriving DecidableEq, Repr, Inhabited

structure Word where
  fragments : List Fragment
  /-- Whether any part of the word is quoted. -/
  quoted : Bool
  deriving DecidableEq, Repr, Inhabited

namespace Word

def empty : Word := ⟨[], false⟩

/-- The text of a word that is nothing but text. -/
def plain? (w : Word) : Option String :=
  if w.quoted then none
  else
    match w.fragments with
    | [.text text] => some text
    | _ => none

def addText (w : Word) (text : List Char) : Word :=
  match w.fragments.getLast? with
  | some (.text before) =>
      { w with fragments := w.fragments.dropLast ++ [.text (before ++ String.ofList text)] }
  | _ => { w with fragments := w.fragments ++ [.text (String.ofList text)] }

def add (w : Word) (f : Fragment) : Word :=
  { w with fragments := w.fragments ++ [f] }

end Word

/-! ### Names -/

/-- Whether a character can stand in a name. -/
def isNameChar (c : Char) : Bool :=
  c.isAlphanum || c == '_'

/-- Whether a text is a name: it does not begin with a digit. -/
def isName (text : List Char) : Bool :=
  !text.isEmpty && text.all isNameChar && !text.head?.any Char.isDigit

/-- The characters that are parameters by themselves. -/
def specialParameters : String := "?$#!@*-"

/-! ### Enclosed texts -/

/-- Cuts a text behind the end of what is quoted at its start. -/
def passQuoted (quote : Char) (fuel : Nat) (done : List Char) (text : List Char) :
    List Char × List Char :=
  match fuel, text with
  | fuel + 1, '\\' :: c :: rest =>
      if quote = '\'' then passQuoted quote fuel ('\\' :: done) (c :: rest)
      else passQuoted quote fuel (c :: '\\' :: done) rest
  | fuel + 1, c :: rest =>
      if c = quote then (c :: done, rest) else passQuoted quote fuel (c :: done) rest
  | _, rest => (done, rest)

/-- Cuts a text behind the first closing character that is not quoted and closes nothing that was
opened in the text; none if there is no such character. -/
def cutEnclosed? (opening closing : Char) (fuel depth : Nat) (done text : List Char) :
    Option (List Char × List Char) :=
  match fuel, text with
  | fuel + 1, '\\' :: c :: rest =>
      cutEnclosed? opening closing fuel depth (c :: '\\' :: done) rest
  | fuel + 1, c :: rest =>
      if c = '\'' ∨ c = '"' then
        let (done, rest) := passQuoted c rest.length (c :: done) rest
        cutEnclosed? opening closing fuel depth done rest
      else if c = closing then
        match depth with
        | 0 => some (done.reverse, rest)
        | depth + 1 => cutEnclosed? opening closing fuel depth (c :: done) rest
      else
        cutEnclosed? opening closing fuel (if c = opening then depth + 1 else depth) (c :: done)
          rest
  | _, _ => none

/-- The text up to the next backquote, in which a backslash takes the meaning from some characters;
none if there is no such quote. -/
def cutBackquoted? (fuel : Nat) (done text : List Char) : Option (List Char × List Char) :=
  match fuel, text with
  | fuel + 1, '\\' :: c :: rest =>
      let kept := if "$`\\".contains c then [c] else [c, '\\']
      cutBackquoted? fuel (kept ++ done) rest
  | fuel + 1, c :: rest =>
      if c = '`' then some (done.reverse, rest) else cutBackquoted? fuel (c :: done) rest
  | _, _ => none

/-! ### Parts that are replaced -/

/-- The operators behind the name of a parameter, longer ones first. -/
def parameterOperators : List String :=
  [":-", ":+", ":=", ":?", "%%", "##", "-", "+", "=", "?", "%", "#"]

def lengthOperator : String := "length"

/-- An operator that means nothing. -/
def badOperator : String := "bad"

/-- The parameter between braces. -/
def enclosedParameter (inner : List Char) (quoted : Bool) : Fragment :=
  let named (text : List Char) : List Char × List Char :=
    match text with
    | c :: rest =>
        if specialParameters.contains c then ([c], rest)
        else if c.isDigit then (text.takeWhile Char.isDigit, text.dropWhile Char.isDigit)
        else (text.takeWhile isNameChar, text.dropWhile isNameChar)
    | [] => ([], [])
  match inner with
  | '#' :: c :: rest =>
      let (name, left) := named (c :: rest)
      if left.isEmpty && !name.isEmpty then
        .parameter (String.ofList name) lengthOperator "" quoted
      else .parameter "" badOperator "" quoted
  | _ =>
      let (name, left) := named inner
      let operator? := parameterOperators.find? fun o => o.toList.isPrefixOf left
      if name.isEmpty then .parameter "" badOperator "" quoted
      else if left.isEmpty then .parameter (String.ofList name) "" "" quoted
      else
        match operator? with
        | some o =>
            .parameter (String.ofList name) o (String.ofList (left.drop o.length)) quoted
        | none => .parameter "" badOperator "" quoted

/-- Reads the part behind a dollar sign, which stands for itself if there is none. The error is what
is wrong with a part that is never closed. -/
def readReplaced (text : List Char) (quoted : Bool) :
    Except String (Option Fragment × List Char) :=
  match text with
  | '(' :: '(' :: rest =>
      match cutEnclosed? '(' ')' (text.length + 1) 0 [] ('(' :: rest) with
      | some (inner, left) =>
          if inner.getLast? = some ')' then
            let expression := (inner.drop 1).dropLast
            .ok (some (.arithmetic (String.ofList expression) quoted), left)
          else .ok (some (.output (String.ofList inner) quoted), left)
      | none => .error "Missing '))'"
  | '(' :: rest =>
      match cutEnclosed? '(' ')' (text.length + 1) 0 [] rest with
      | some (inner, left) => .ok (some (.output (String.ofList inner) quoted), left)
      | none => .error "end of file unexpected (expecting \")\")"
  | '\x7b' :: rest =>
      match cutEnclosed? '\x7b' '\x7d' (text.length + 1) 0 [] rest with
      | some (inner, left) => .ok (some (enclosedParameter inner quoted), left)
      | none => .error "Missing '\x7d'"
  | c :: rest =>
      if specialParameters.contains c || c.isDigit then
        .ok (some (.parameter (String.singleton c) "" "" quoted), rest)
      else
        let name := text.takeWhile isNameChar
        if name.isEmpty then .ok (none, text)
        else
          .ok (some (.parameter (String.ofList name) "" "" quoted), text.drop name.length)
  | [] => .ok (none, [])

/-- A word with the part behind a dollar sign. -/
def Word.addReplaced (w : Word) (text : List Char) (quoted : Bool) :
    Except String (Word × List Char) := do
  match ← readReplaced text quoted with
  | (some f, rest) => return (w.add f, rest)
  | (none, rest) => return (w.addText ['$'], rest)

/-- A word with the output between backquotes. -/
def Word.addBackquoted (w : Word) (text : List Char) (quoted : Bool) :
    Except String (Word × List Char) :=
  match cutBackquoted? (text.length + 1) [] text with
  | some (inner, rest) => .ok (w.add (.output (String.ofList inner) quoted), rest)
  | none => .error "EOF in backquote substitution"

/-! ### Reading words -/

/-- What is wrong with a quote that is never closed. -/
def unclosedQuote : String := "Unterminated quoted string"

/-- Reads text in which parts are replaced, up to a closing character or, without one, to its end.
-/
def readQuoted (closing? : Option Char) (fuel : Nat) (w : Word) (text : List Char) :
    Except String (Word × List Char) :=
  match fuel, text with
  | fuel + 1, '\\' :: '\n' :: rest => readQuoted closing? fuel w rest
  | fuel + 1, '\\' :: c :: rest =>
      let loses := "$\\`".contains c || closing? = some c
      readQuoted closing? fuel (w.addText (if loses then [c] else ['\\', c])) rest
  | fuel + 1, '$' :: rest => do
      let (w, rest) ← w.addReplaced rest true
      readQuoted closing? fuel w rest
  | fuel + 1, '`' :: rest => do
      let (w, rest) ← w.addBackquoted rest true
      readQuoted closing? fuel w rest
  | fuel + 1, c :: rest =>
      if closing? = some c then .ok (w, rest) else readQuoted closing? fuel (w.addText [c]) rest
  | _, _ => if closing?.isSome then .error unclosedQuote else .ok (w, [])

/-- Whether a character ends a word. -/
def endsWord (c : Char) : Bool :=
  " \t\n;&|<>()".contains c

/-- Reads a word, up to a character that ends it, of which there may be none. -/
def readWord (ends : Char → Bool) (fuel : Nat) (w : Word) (text : List Char) :
    Except String (Word × List Char) :=
  match fuel, text with
  | fuel + 1, '\'' :: rest =>
      let inner := rest.takeWhile (· != '\'')
      match rest.drop inner.length with
      | _ :: rest => readWord ends fuel { w.addText inner with quoted := true } rest
      | [] => .error unclosedQuote
  | fuel + 1, '"' :: rest => do
      let (w, rest) ← readQuoted (some '"') (rest.length + 1) { w.addText [] with quoted := true }
        rest
      readWord ends fuel w rest
  | fuel + 1, '\\' :: '\n' :: rest => readWord ends fuel w rest
  | fuel + 1, '\\' :: c :: rest =>
      readWord ends fuel { w.addText [c] with quoted := true } rest
  | fuel + 1, '$' :: rest => do
      let (w, rest) ← w.addReplaced rest false
      readWord ends fuel w rest
  | fuel + 1, '`' :: rest => do
      let (w, rest) ← w.addBackquoted rest false
      readWord ends fuel w rest
  | fuel + 1, c :: rest =>
      if ends c then .ok (w, c :: rest) else readWord ends fuel (w.addText [c]) rest
  | _, text => .ok (w, text)

def Word.ofText (text : List Char) : Except String Word :=
  (readWord (fun _ => false) (text.length + 1) .empty text).map (·.1)

/-- The word of a whole text in which quotes mean nothing. -/
def Word.ofQuotedText (text : List Char) : Except String Word :=
  (readQuoted none (text.length + 1) .empty text).map (·.1)

/-! ### Patterns -/

/-- Cuts a class of characters behind its bracket: whether it names the others, what it names, and
what follows; none if it is never closed. -/
def readClass? (text : List Char) : Option (Bool × List Char × List Char) :=
  let (others, text) := match text with
    | '!' :: rest => (true, rest)
    | rest => (false, rest)
  match text with
  | first :: rest =>
      let inner := rest.takeWhile (· != ']')
      match rest.drop inner.length with
      | _ :: rest => some (others, first :: inner, rest)
      | [] => none
  | [] => none

/-- Whether a class names a character, by itself or in a range. -/
def classNames (c : Char) : List Char → Bool
  | low :: '-' :: high :: rest => (low ≤ c && c ≤ high) || classNames c rest
  | x :: rest => x == c || classNames c rest
  | [] => false

/-- Whether a text fits a pattern, in which a star stands for any text, a question mark for any
character and a class for those that it names. -/
def fits (fuel : Nat) (pattern text : List Char) : Bool :=
  match fuel, pattern, text with
  | 0, _, _ => false
  | _, [], text => text.isEmpty
  | fuel + 1, '*' :: rest, text =>
      fits fuel rest text || (!text.isEmpty && fits fuel ('*' :: rest) (text.drop 1))
  | _, _ :: _, [] => false
  | fuel + 1, '[' :: rest, c :: text =>
      match readClass? rest with
      | some (others, names, left) => (classNames c names != others) && fits fuel left text
      | none => c == '[' && fits fuel rest text
  | fuel + 1, p :: rest, c :: text => (p == '?' || p == c) && fits fuel rest text

def fitsPattern (pattern text : String) : Bool :=
  fits (pattern.length + text.length + 1) pattern.toList text.toList

end Workbench.Sandbox
