import Workbench.Sandbox.Word

/-!
# Arithmetic of scripts

Expressions on integers of 64 bits, which wrap around. A variable counts as the number that its
value spells, and an assignment has the value that it sets.
-/

namespace Workbench.Sandbox

/-! ### Expressions -/

inductive Arithmetic where
  | number (value : Int)
  | named (name : String)
  | unary (operator : Char) (operand : Arithmetic)
  | binary (operator : String) (lhs rhs : Arithmetic)
  | choose (cond yes no : Arithmetic)
  /-- Sets a variable, with an operator to what that makes of its old value. -/
  | assign (name operator : String) (value : Arithmetic)
  deriving Repr, Inhabited

namespace Arithmetic

/-- The problem of an expression. -/
inductive Problem where
  | noPrimary
  | trailing
  | dividesByZero
  /-- The value of a variable that spells no number. -/
  | badNumber (text : String)
  deriving DecidableEq, Repr

/-- What is left of an expression that is being read. -/
abbrev Reading := StateT (List Char) (Except Problem)

/-- The operators with two operands, from the weakest to the strongest. -/
def levels : List (List String) :=
  [["||"], ["&&"], ["|"], ["^"], ["&"], ["==", "!="], ["<=", ">=", "<", ">"], ["<<", ">>"],
    ["+", "-"], ["*", "/", "%"]]

/-- All operators, longer ones first, so that none is taken for the start of another. -/
def allOperators : List String :=
  ["<<=", ">>=", "||", "&&", "==", "!=", "<=", ">=", "<<", ">>", "+=", "-=", "*=", "/=", "%=",
    "&=", "|=", "^=", "+", "-", "*", "/", "%", "<", ">", "&", "|", "^", "=", "!", "~", "?", ":",
    "(", ")"]

def peek : Reading (Option String) := do
  let text := (← get).dropWhile fun c => " \t\n".contains c
  set text
  return allOperators.find? fun o => o.toList.isPrefixOf text

def pass (operator : String) : Reading Unit :=
  modify fun text => text.drop operator.length

def digit? (base : Nat) (c : Char) : Option Nat :=
  let value :=
    if c.isDigit then c.toNat - '0'.toNat
    else if 'a' ≤ c && c ≤ 'f' then c.toNat - 'a'.toNat + 10
    else if 'A' ≤ c && c ≤ 'F' then c.toNat - 'A'.toNat + 10
    else base
  if value < base then some value else none

/-- The number at the start of a text in a base, and what follows. -/
def digits (base : Nat) (value : Nat) : List Char → Nat × List Char
  | c :: rest =>
      match digit? base c with
      | some d => digits base (base * value + d) rest
      | none => (value, c :: rest)
  | [] => (value, [])

/-- The number at the start of a text that begins with a digit, and what follows. -/
def readNumeral (text : List Char) : Nat × List Char :=
  match text with
  | '0' :: 'x' :: rest | '0' :: 'X' :: rest => digits 16 0 rest
  | '0' :: rest => digits 8 0 rest
  | _ => digits 10 0 text

mutual

def readExpression (fuel : Nat) : Reading Arithmetic :=
  match fuel with
  | 0 => throw .noPrimary
  | fuel + 1 => do
      let start ← get
      match ← readAssignment? fuel with
      | some e => return e
      | none =>
          set start
          let cond ← readLevel fuel levels
          if (← peek) = some "?" then
            pass "?"
            let yes ← readExpression fuel
            if (← peek) = some ":" then
              pass ":"
              return .choose cond yes (← readExpression fuel)
            else throw .trailing
          else return cond

/-- Reads an assignment, if the expression is one. -/
def readAssignment? (fuel : Nat) : Reading (Option Arithmetic) :=
  match fuel with
  | 0 => throw .noPrimary
  | fuel + 1 => do
      let _ ← peek
      let text ← get
      let name := text.takeWhile isNameChar
      if !isName name then return none
      set (text.drop name.length)
      match ← peek with
      | some o =>
          if o.toList.getLast? = some '=' && !(["==", "!=", "<=", ">="].contains o) then
            pass o
            let value ← readExpression fuel
            return some (.assign (String.ofList name) (String.ofList o.toList.dropLast) value)
          else return none
      | none => return none

/-- Reads an expression of operators that are at least as strong as the first level. -/
def readLevel (fuel : Nat) (levels : List (List String)) : Reading Arithmetic :=
  match fuel with
  | 0 => throw .noPrimary
  | fuel + 1 =>
      match levels with
      | [] => readUnary fuel
      | operators :: stronger => do
          readMore fuel operators stronger (← readLevel fuel stronger)

/-- Reads the operators of one level behind a first operand. -/
def readMore (fuel : Nat) (operators : List String) (stronger : List (List String))
    (lhs : Arithmetic) : Reading Arithmetic :=
  match fuel with
  | 0 => throw .noPrimary
  | fuel + 1 => do
      match ← peek with
      | some o =>
          if operators.contains o then
            pass o
            let rhs ← readLevel fuel stronger
            readMore fuel operators stronger (.binary o lhs rhs)
          else return lhs
      | none => return lhs

/-- Reads an operand with the operators in front of it. -/
def readUnary (fuel : Nat) : Reading Arithmetic :=
  match fuel with
  | 0 => throw .noPrimary
  | fuel + 1 => do
      match ← peek with
      | some "-" => pass "-"; return .unary '-' (← readUnary fuel)
      | some "+" => pass "+"; readUnary fuel
      | some "!" => pass "!"; return .unary '!' (← readUnary fuel)
      | some "~" => pass "~"; return .unary '~' (← readUnary fuel)
      | some "(" => do
          pass "("
          let inner ← readExpression fuel
          if (← peek) = some ")" then
            pass ")"
            return inner
          else throw .trailing
      | some _ => throw .noPrimary
      | none => do
          let text ← get
          if text.head?.any Char.isDigit then
            let (value, rest) := readNumeral text
            set rest
            return .number value
          else
            let name := text.takeWhile isNameChar
            if name.isEmpty then throw .noPrimary
            set (text.drop name.length)
            return .named (String.ofList name)

end

def parse (text : String) : Except Problem Arithmetic := do
  let fuel := 16 * text.length + 32
  let (e, rest) ← (readExpression fuel).run text.toList
  if (rest.all fun c => " \t\n".contains c) then return e else throw .trailing

/-! ### Values -/

/-- The variables that an evaluation can see and set. -/
abbrev Evaluation := StateT (List (String × String)) (Except Problem)

/-- A number in 64 bits. -/
def wrap (value : Int) : Int := (BitVec.ofInt 64 value).toInt

/-- The number that the value of a variable spells. An empty value counts as zero. -/
def numberOf (text : String) : Except Problem Int :=
  let body := text.toList.dropWhile fun c => " \t\n".contains c
  let (negative, body) := match body with
    | '-' :: rest => (true, rest)
    | '+' :: rest => (false, rest)
    | rest => (false, rest)
  if text.isEmpty then .ok 0
  else if body.head?.any Char.isDigit then
    let (value, rest) := readNumeral body
    if rest.isEmpty then .ok (wrap (if negative then -value else value))
    else .error (.badNumber text)
  else .error (.badNumber text)

/-- One for what holds and zero for what does not. -/
def truth (b : Bool) : Int := if b then 1 else 0

/-- The value of an operator on two numbers. -/
def apply (operator : String) (a b : Int) : Except Problem Int :=
  let bits (n : Int) : BitVec 64 := BitVec.ofInt 64 n
  match operator with
  | "+" => .ok (wrap (a + b))
  | "-" => .ok (wrap (a - b))
  | "*" => .ok (wrap (a * b))
  | "/" => if b = 0 then .error .dividesByZero else .ok (wrap (a.tdiv b))
  | "%" => if b = 0 then .error .dividesByZero else .ok (wrap (a.tmod b))
  | "==" => .ok (truth (a == b))
  | "!=" => .ok (truth (a != b))
  | "<" => .ok (truth (a < b))
  | "<=" => .ok (truth (a ≤ b))
  | ">" => .ok (truth (b < a))
  | ">=" => .ok (truth (b ≤ a))
  | "&" => .ok (bits a &&& bits b).toInt
  | "|" => .ok (bits a ||| bits b).toInt
  | "^" => .ok (bits a ^^^ bits b).toInt
  | "<<" => .ok (bits a <<< (b.toNat % 64)).toInt
  | ">>" => .ok ((bits a).sshiftRight (b.toNat % 64)).toInt
  | _ => .ok b

def find (name : String) : Evaluation Int := do
  let bindings ← get
  numberOf (((bindings.find? fun (n, _) => n == name).map (·.2)).getD "")

def eval : Arithmetic → Evaluation Int
  | number value => return wrap value
  | named name => find name
  | unary operator operand => do
      let a ← operand.eval
      return match operator with
        | '-' => wrap (-a)
        | '!' => truth (a == 0)
        | _ => -a - 1
  | binary "&&" lhs rhs => do
      if (← lhs.eval) = 0 then return 0 else return truth ((← rhs.eval) != 0)
  | binary "||" lhs rhs => do
      if (← lhs.eval) = 0 then return truth ((← rhs.eval) != 0) else return 1
  | binary operator lhs rhs => do
      let a ← lhs.eval
      apply operator a (← rhs.eval)
  | choose cond yes no => do
      if (← cond.eval) = 0 then no.eval else yes.eval
  | assign name operator value => do
      let old ← if operator.isEmpty then pure 0 else find name
      let new ← apply operator old (← value.eval)
      modify fun bindings =>
        (name, toString new) :: bindings.filter fun (n, _) => n != name
      return new

def Problem.text (expression : String) : Problem → String
  | noPrimary => s!"arithmetic expression: expecting primary: \"{expression}\""
  | trailing => s!"arithmetic expression: expecting EOF: \"{expression}\""
  | dividesByZero => s!"arithmetic expression: division by zero: \"{expression}\""
  | badNumber text => s!"Illegal number: {text}"

end Arithmetic

end Workbench.Sandbox
