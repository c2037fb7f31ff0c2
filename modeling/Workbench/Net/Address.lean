/-!
# Socket addresses

A socket address is an address of four bytes or of eight groups of 16 bits, with a port. Groups are
written in hexadecimal; the longest row of at least two zero groups, the first of several, is left
out between two colons. An address of groups that stands for one of bytes ends in these, and groups
can name the scope that they are valid in.
-/

namespace Workbench.Net

inductive Address where
  | bytes (a b c d : Nat) (port : Nat)
  /-- Eight groups, with the number of their scope. -/
  | groups (groups : List Nat) (scope : Nat) (port : Nat)
  deriving DecidableEq, Repr

namespace Address

instance : Inhabited Address := ⟨bytes 0 0 0 0 0⟩

/-! ### Writing -/

/-- Four bytes with dots. -/
def bytesText (a b c d : Nat) : String :=
  s!"{a}.{b}.{c}.{d}"

/-- A number in hexadecimal. -/
def hexText (n : Nat) : String :=
  String.ofList (Nat.toDigits 16 n)

def colonText (groups : List Nat) : String :=
  ":".intercalate (groups.map hexText)

/-- How many zeros a list begins with. -/
def leadingZeros (groups : List Nat) : Nat :=
  (groups.takeWhile (· == 0)).length

/-- The first of the longest rows of zeros: where it begins and how long it is. -/
def longestZeros (groups : List Nat) : Nat × Nat :=
  (List.range groups.length).foldl
    (fun best start =>
      let length := leadingZeros (groups.drop start)
      if best.2 < length then (start, length) else best)
    (0, 0)

/-- Groups in their shortest form. -/
def groupsText (groups : List Nat) : String :=
  match groups with
  | [0, 0, 0, 0, 0, 0xffff, high, low] =>
      "::ffff:" ++ bytesText (high / 256) (high % 256) (low / 256) (low % 256)
  | _ =>
      let (start, length) := longestZeros groups
      if length < 2 then colonText groups
      else colonText (groups.take start) ++ "::" ++ colonText (groups.drop (start + length))

def text : Address → String
  | bytes a b c d port => s!"{bytesText a b c d}:{port}"
  | groups gs 0 port => s!"[{groupsText gs}]:{port}"
  | groups gs scope port => s!"[{groupsText gs}%{scope}]:{port}"

/-! ### Reading -/

/-- The rest of the input behind something that was read. -/
abbrev Reader (α : Type) := List Char → Option (α × List Char)

/-- The value of a digit in a base of at most sixteen. -/
def digitValue? (base : Nat) (c : Char) : Option Nat :=
  let value? :=
    if c.isDigit then some (c.toNat - '0'.toNat)
    else if 'a' ≤ c ∧ c ≤ 'f' then some (c.toNat - 'a'.toNat + 10)
    else if 'A' ≤ c ∧ c ≤ 'F' then some (c.toNat - 'A'.toNat + 10)
    else none
  value?.filter (· < base)

/-- The values of the digits at the front of the input. -/
def readDigits (base : Nat) : List Char → List Nat × List Char
  | [] => ([], [])
  | c :: rest =>
      match digitValue? base c with
      | some value =>
          let (values, rest) := readDigits base rest
          (value :: values, rest)
      | none => ([], c :: rest)

/-- How a number may be written. -/
structure NumberForm where
  base : Nat
  /-- The most digits; any number of them if none. -/
  maxDigits : Option Nat
  /-- Whether it may begin with zeros. -/
  zerosFirst : Bool
  bits : Nat

/-- A byte in decimal. -/
def byteForm : NumberForm := ⟨10, some 3, false, 8⟩

/-- A group in hexadecimal. -/
def groupForm : NumberForm := ⟨16, some 4, true, 16⟩

def portForm : NumberForm := ⟨10, none, true, 16⟩

def scopeForm : NumberForm := ⟨10, none, true, 32⟩

def readNumber (form : NumberForm) : Reader Nat := fun input =>
  let (digits, rest) := readDigits form.base input
  let value := digits.foldl (fun n d => form.base * n + d) 0
  if digits.isEmpty || form.maxDigits.any (· < digits.length) then none
  else if !form.zerosFirst && digits.head? == some 0 && 1 < digits.length then none
  else if 1 <<< form.bits ≤ value then none
  else some (value, rest)

def readChar (c : Char) : List Char → Option (List Char)
  | [] => none
  | d :: rest => if d = c then some rest else none

/-- Reads four bytes with dots. -/
def readBytes : Reader (Nat × Nat × Nat × Nat) := fun input => do
  let (a, input) ← readNumber byteForm input
  let (b, input) ← readNumber byteForm (← readChar '.' input)
  let (c, input) ← readNumber byteForm (← readChar '.' input)
  let (d, input) ← readNumber byteForm (← readChar '.' input)
  return ((a, b, c, d), input)

/-- Reads what stands between two colons, or first. -/
def readBehind {α : Type} (isFirst : Bool) (item : Reader α) : Reader α := fun input =>
  if isFirst then item input else (readChar ':' input).bind item

/-- Reads at most so many groups; the last two may be written as bytes. The result says whether they
were. -/
def readGroups : Nat → Bool → List Char → List Nat × Bool × List Char
  | 0, _, input => ([], false, input)
  | 1, isFirst, input =>
      match readBehind isFirst (readNumber groupForm) input with
      | some (g, rest) => ([g], false, rest)
      | none => ([], false, input)
  | limit + 2, isFirst, input =>
      match readBehind isFirst readBytes input with
      | some ((a, b, c, d), rest) => ([256 * a + b, 256 * c + d], true, rest)
      | none =>
          match readBehind isFirst (readNumber groupForm) input with
          | some (g, rest) =>
              let (gs, endsInBytes, rest) := readGroups (limit + 1) false rest
              (g :: gs, endsInBytes, rest)
          | none => ([], false, input)

/-- Reads eight groups, some of which may be left out. -/
def readAllGroups : Reader (List Nat) := fun input => do
  let (front, endsInBytes, rest) := readGroups 8 true input
  if front.length = 8 then return (front, rest)
  else if endsInBytes then none
  else
    let rest ← readChar ':' (← readChar ':' rest)
    let (back, _, rest) := readGroups (7 - front.length) true rest
    return (front ++ List.replicate (8 - front.length - back.length) 0 ++ back, rest)

/-- Reads a port behind its colon. -/
def readPort : Reader Nat := fun input =>
  (readChar ':' input).bind (readNumber portForm)

/-- Reads a scope; without one it is zero. -/
def readScope (input : List Char) : Nat × List Char :=
  (((readChar '%' input).bind (readNumber scopeForm))).getD (0, input)

def readBytesAddress : Reader Address := fun input => do
  let ((a, b, c, d), input) ← readBytes input
  let (port, input) ← readPort input
  return (bytes a b c d port, input)

def readGroupsAddress : Reader Address := fun input => do
  let (gs, input) ← readAllGroups (← readChar '[' input)
  let (scope, input) := readScope input
  let (port, input) ← readPort (← readChar ']' input)
  return (groups gs scope port, input)

/-- The address of a text, which has to hold nothing else. -/
def parse? (text : String) : Option Address :=
  match readBytesAddress text.toList <|> readGroupsAddress text.toList with
  | some (address, []) => some address
  | _ => none

end Address

end Workbench.Net
