import Workbench.Json.Basic

/-!
# Writing JSON texts

Two layouts of the same values: `compress` writes one line without blanks, `pretty` one member or
item a line, indented by two spaces. Members are written in their order. Strings are written as they
are, quotes, backslashes and control characters apart.
-/

namespace Workbench.Json

/-- The hexadecimal digit of a number below sixteen, in lower case. -/
def hexDigit (n : Nat) : Char :=
  if n < 10 then Char.ofNat ('0'.toNat + n) else Char.ofNat ('a'.toNat + (n - 10))

/-- How a character is written inside a string. -/
def escape (c : Char) : String :=
  match c with
  | '"' => "\\\""
  | '\\' => "\\\\"
  | '\x08' => "\\b"
  | '\x0c' => "\\f"
  | '\n' => "\\n"
  | '\r' => "\\r"
  | '\t' => "\\t"
  | c =>
      if c.toNat < 0x20 then
        "\\u00" ++ String.ofList [hexDigit (c.toNat / 16), hexDigit (c.toNat % 16)]
      else c.toString

def quote (s : String) : String :=
  s.foldl (fun out c => out ++ escape c) "\"" ++ "\""

/-- A decimal, always with an exponent, so that it does not read back as an integer. -/
def Decimal.text (d : Decimal) : String :=
  (if d.negative then "-" else "") ++ s!"{d.digits}e{d.exponent}"

def joinWith (separator : String) : List String → String
  | [] => ""
  | x :: xs => xs.foldl (fun out y => out ++ separator ++ y) x

mutual

/-- A value on one line. -/
def compress : Json → String
  | null => "null"
  | bool b => if b then "true" else "false"
  | int n => toString n
  | decimal d => d.text
  | str s => quote s
  | arr items => "[" ++ joinWith "," (compressItems items) ++ "]"
  | obj members => "\x7b" ++ joinWith "," (compressMembers members) ++ "\x7d"

/-- The items of an array, each on one line. -/
def compressItems : List Json → List String
  | [] => []
  | x :: xs => compress x :: compressItems xs

/-- The members of an object, each on one line. -/
def compressMembers : List (String × Json) → List String
  | [] => []
  | (k, v) :: ms => (quote k ++ ":" ++ compress v) :: compressMembers ms

end

/-- A line break and the indentation of a level. -/
def newLine (level : Nat) : String :=
  "\n" ++ String.ofList (List.replicate (2 * level) ' ')

/-- Written items between brackets, each on a line of its own below the given level. -/
def enclose (opening closing : String) (level : Nat) (items : List String) : String :=
  let inner := newLine (level + 1)
  opening ++ inner ++ joinWith ("," ++ inner) items ++ newLine level ++ closing

mutual

/-- A value over several lines; `level` is how deep it stands. -/
def prettyAt (level : Nat) : Json → String
  | null => "null"
  | bool b => if b then "true" else "false"
  | int n => toString n
  | decimal d => d.text
  | str s => quote s
  | arr [] => "[]"
  | arr (x :: xs) => enclose "[" "]" level (prettyItems (level + 1) (x :: xs))
  | obj [] => "\x7b\x7d"
  | obj (m :: ms) => enclose "\x7b" "\x7d" level (prettyMembers (level + 1) (m :: ms))

/-- The items of an array that stands above the given level. -/
def prettyItems (level : Nat) : List Json → List String
  | [] => []
  | x :: xs => prettyAt level x :: prettyItems level xs

/-- The members of an object that stands above the given level. -/
def prettyMembers (level : Nat) : List (String × Json) → List String
  | [] => []
  | (k, v) :: ms => (quote k ++ ": " ++ prettyAt level v) :: prettyMembers level ms

end

/-- A value over several lines, without a line break at the end. -/
def pretty (value : Json) : String :=
  prettyAt 0 value

end Workbench.Json
