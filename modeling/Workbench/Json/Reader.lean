import Workbench.Json.Basic

/-!
# Reading JSON texts

`Json.parse?` reads one value that fills the whole text, blanks apart. Which texts are refused is
part of the protocols built on it: control characters in strings, half of a surrogate pair, numbers
beyond the range of a double and nesting beyond `maxNesting` are all malformed. Of a key that is
repeated in one object the last value counts; a reader that has to know about repetition uses
`parseMembers?`, which keeps every member.
-/

namespace Workbench.Json

/-- The rest of the input behind something that was read. -/
abbrev Reader (α : Type) := List Char → Option (α × List Char)

/-- Drops blanks: space, tab, line feed and carriage return. -/
def skipBlanks (input : List Char) : List Char :=
  input.dropWhile fun c => c == ' ' || c == '\t' || c == '\n' || c == '\r'

def dropWord? (word input : List Char) : Option (List Char) :=
  if word.isPrefixOf input then some (input.drop word.length) else none

/-! ### Numbers -/

/-- The digits at the front of the input and what follows them. -/
def digits (input : List Char) : List Char × List Char :=
  (input.takeWhile Char.isDigit, input.dropWhile Char.isDigit)

def natOfDigits (ds : List Char) : Nat :=
  ds.foldl (fun n c => 10 * n + (c.toNat - '0'.toNat)) 0

/-- The digits in front of the point: a single zero, or digits without a leading one. -/
def readWhole : Reader (List Char) := fun input =>
  match digits input with
  | ([], _) => none
  | (['0'], rest) => some (['0'], rest)
  | ('0' :: _, _) => none
  | (ds, rest) => some (ds, rest)

/-- The digits behind the point, if there is one. -/
def readFraction : Reader (Option (List Char))
  | '.' :: rest =>
      match digits rest with
      | ([], _) => none
      | (ds, rest) => some (some ds, rest)
  | input => some (none, input)

/-- The exponent, if there is one. -/
def readExponent : Reader (Option Int) := fun input =>
  match input with
  | c :: rest =>
      if c == 'e' || c == 'E' then
        let (negative, rest) :=
          match rest with
          | '-' :: rest => (true, rest)
          | '+' :: rest => (false, rest)
          | rest => (false, rest)
        match digits rest with
        | ([], _) => none
        | (ds, rest) =>
            let value : Int := natOfDigits ds
            some (some (if negative then -value else value), rest)
      else some (none, input)
  | [] => some (none, [])

/-- The least natural number that rounds to infinity as a double. -/
def doubleOverflow : Nat := 1 <<< 1024 - 1 <<< 970

/-- Whether a decimal is beyond the doubles. Its count of digits settles all but the closest cases,
so that no power of a large exponent is ever formed. -/
def Decimal.isTooLarge (d : Decimal) : Bool :=
  let size : Int := (Nat.toDigits 10 d.digits).length + d.exponent
  if d.digits = 0 || size < 309 then false
  else if size > 309 then true
  else d.digits * Nat.pow 10 d.exponent.toNat ≥ doubleOverflow * Nat.pow 10 (-d.exponent).toNat

/-- The number written with a sign, digits, and perhaps a fraction and an exponent. -/
def numberOf? (negative : Bool) (whole : List Char) (fraction : Option (List Char))
    (exponent : Option Int) : Option Json :=
  let value := natOfDigits whole
  let isInteger := fraction.isNone && exponent.isNone
  if isInteger && !negative && value < 1 <<< 64 then some (int value)
  else if isInteger && negative && 0 < value && value ≤ 1 <<< 63 then some (int (-value))
  else
    let places := fraction.getD []
    let d : Decimal := ⟨negative, natOfDigits (whole ++ places), exponent.getD 0 - places.length⟩
    if d.isTooLarge then none else some (decimal d)

def readNumber : Reader Json := fun input => do
  let (negative, input) :=
    match input with
    | '-' :: rest => (true, rest)
    | _ => (false, input)
  let (whole, input) ← readWhole input
  let (fraction, input) ← readFraction input
  let (exponent, input) ← readExponent input
  let value ← numberOf? negative whole fraction exponent
  return (value, input)

/-! ### Strings -/

def hexValue? (c : Char) : Option Nat :=
  if c.isDigit then some (c.toNat - '0'.toNat)
  else if 'a' ≤ c ∧ c ≤ 'f' then some (c.toNat - 'a'.toNat + 10)
  else if 'A' ≤ c ∧ c ≤ 'F' then some (c.toNat - 'A'.toNat + 10)
  else none

/-- The value of four hexadecimal digits. -/
def hexUnit? (a b c d : Char) : Option Nat := do
  return ((← hexValue? a) * 16 + (← hexValue? b)) * 256 + (← hexValue? c) * 16 + (← hexValue? d)

/-- The character that a letter behind a backslash stands for. -/
def unescape? : Char → Option Char
  | '"' => some '"'
  | '\\' => some '\\'
  | '/' => some '/'
  | 'b' => some '\x08'
  | 'f' => some '\x0c'
  | 'n' => some '\n'
  | 'r' => some '\r'
  | 't' => some '\t'
  | _ => none

/-- Reads the rest of a string behind its opening quote; `done` holds the characters so far, last
first. A character beyond 16 bits may be written as a pair of units, and half a pair is refused. -/
def readStringAux (done : List Char) : List Char → Option (String × List Char)
  | [] => none
  | '"' :: rest => some (String.ofList done.reverse, rest)
  | '\\' :: 'u' :: a :: b :: c :: d :: rest =>
      match hexUnit? a b c d with
      | none => none
      | some unit =>
          if unit < 0xD800 ∨ 0xDFFF < unit then readStringAux (Char.ofNat unit :: done) rest
          else if 0xDBFF < unit then none
          else
            match rest with
            | '\\' :: 'u' :: a :: b :: c :: d :: rest =>
                match hexUnit? a b c d with
                | none => none
                | some low =>
                    if 0xDC00 ≤ low ∧ low ≤ 0xDFFF then
                      let value := 0x10000 + (unit - 0xD800) * 0x400 + (low - 0xDC00)
                      readStringAux (Char.ofNat value :: done) rest
                    else none
            | _ => none
  | '\\' :: c :: rest =>
      match unescape? c with
      | some c => readStringAux (c :: done) rest
      | none => none
  | c :: rest => if c.toNat < 0x20 ∨ c = '\\' then none else readStringAux (c :: done) rest

/-- Reads a string, its quotes included. -/
def readString : Reader String
  | '"' :: rest => readStringAux [] rest
  | _ => none

/-! ### Arrays and objects

The item reader is a parameter, so that the nesting is the only recursion. Each item takes at least
one character, so as many rounds as there are characters suffice. -/

/-- The items of an array behind its opening bracket, at least one. -/
def readItemsAux (item : Reader Json) : Nat → List Json → Reader (List Json)
  | 0, _, _ => none
  | rounds + 1, done, input => do
      let (x, input) ← item input
      match skipBlanks input with
      | ',' :: rest => readItemsAux item rounds (x :: done) rest
      | ']' :: rest => return ((x :: done).reverse, rest)
      | _ => none

/-- The items of an array behind its opening bracket. -/
def readItems (item : Reader Json) : Reader (List Json) := fun input =>
  match skipBlanks input with
  | ']' :: rest => some ([], rest)
  | _ => readItemsAux item (input.length + 1) [] input

/-- The members of an object behind its opening brace, at least one, last first. -/
def readMembersAux (item : Reader Json) :
    Nat → List (String × Json) → Reader (List (String × Json))
  | 0, _, _ => none
  | rounds + 1, done, input => do
      let (key, input) ← readString (skipBlanks input)
      let input ← dropWord? [':'] (skipBlanks input)
      let (x, input) ← item input
      match skipBlanks input with
      | ',' :: rest => readMembersAux item rounds ((key, x) :: done) rest
      | '\x7d' :: rest => return ((key, x) :: done, rest)
      | _ => none

/-- The members of an object behind its opening brace, in order. -/
def readMembers (item : Reader Json) : Reader (List (String × Json)) := fun input =>
  match skipBlanks input with
  | '\x7d' :: rest => some ([], rest)
  | _ => do
      let (members, rest) ← readMembersAux item (input.length + 1) [] input
      return (members.reverse, rest)

/-! ### Values -/

/-- How deep arrays and objects may nest. -/
def maxNesting : Nat := 127

/-- The object with the given members, of which the last of one key counts. -/
def ofMembers (members : List (String × Json)) : List (String × Json) :=
  members.foldl (fun done (k, v) => setMember k v done) []

/-- Reads one value that nests at most so deep. `gather` turns the members read into those of the
object. -/
def readValue (gather : List (String × Json) → List (String × Json)) (room : Nat) : Reader Json :=
  fun input =>
    match skipBlanks input with
    | [] => none
    | '[' :: rest =>
        match room with
        | 0 => none
        | room + 1 => (readItems (readValue gather room) rest).map fun (xs, rest) => (arr xs, rest)
    | '\x7b' :: rest =>
        match room with
        | 0 => none
        | room + 1 =>
            (readMembers (readValue gather room) rest).map fun (ms, rest) => (obj (gather ms), rest)
    | '"' :: rest => (readStringAux [] rest).map fun (s, rest) => (str s, rest)
    | 'n' :: rest => (dropWord? ['u', 'l', 'l'] rest).map fun rest => (null, rest)
    | 't' :: rest => (dropWord? ['r', 'u', 'e'] rest).map fun rest => (bool true, rest)
    | 'f' :: rest => (dropWord? ['a', 'l', 's', 'e'] rest).map fun rest => (bool false, rest)
    | input => readNumber input

/-- Reads a text that holds one value and nothing else but blanks. -/
def parseWith? (gather : List (String × Json) → List (String × Json)) (text : String) :
    Option Json := do
  let (value, rest) ← readValue gather maxNesting text.toList
  if (skipBlanks rest).isEmpty then some value else none

/-- The value that a text stands for. -/
def parse? (text : String) : Option Json :=
  parseWith? ofMembers text

/-- The value that a text stands for, with the members of objects as they were written, repeated
keys included. -/
def parseMembers? (text : String) : Option Json :=
  parseWith? id text

end Workbench.Json
