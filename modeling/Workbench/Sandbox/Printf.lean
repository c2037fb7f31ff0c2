import Workbench.Sandbox.Output

/-!
# Formatted printing

A format is text with escapes and conversions. Each conversion takes an argument, and while
arguments are left the format begins anew. Missing arguments are empty or zero.
-/

namespace Workbench.Sandbox

open Wasm (Bytes)

/-- Who prints. They differ in the escapes that they know and in the words of their complaints. -/
inductive Printer where
  /-- The command of a shell, with what its complaints begin with. -/
  | command (label : String)
  /-- The program of the same name. -/
  | program
  deriving DecidableEq, Repr, Inhabited

/-- What the complaints of a printer begin with. -/
def Printer.label : Printer → String
  | command label => label
  | program => "printf"

/-! ### Escapes -/

def octalValue? (c : Char) : Option Nat :=
  if '0' ≤ c ∧ c ≤ '7' then some (c.toNat - '0'.toNat) else none

/-- Reads up to so many octal digits behind those of a number. -/
def octalDigits (value : Nat) : Nat → List Char → Nat × List Char
  | count + 1, c :: rest =>
      match octalValue? c with
      | some digit => octalDigits (8 * value + digit) count rest
      | none => (value, c :: rest)
  | _, rest => (value, rest)

def escapeByte? (c : Char) : Option UInt8 :=
  match c with
  | 'a' => some 7
  | 'b' => some 8
  | 'e' => some 0x1b
  | 't' => some 9
  | 'n' => some 10
  | 'v' => some 11
  | 'f' => some 12
  | 'r' => some 13
  | '\\' => some 0x5c
  | '"' => some 0x22
  | _ => none

def charBytes (c : Char) : Bytes :=
  (String.singleton c).toUTF8.toList

def hexValue? (c : Char) : Option Nat :=
  if c.isDigit then some (c.toNat - '0'.toNat)
  else if 'a' ≤ c.toLower ∧ c.toLower ≤ 'f' then some (c.toLower.toNat - 'a'.toNat + 10)
  else none

/-- The byte of up to two hexadecimal digits, and what follows; none without a digit. -/
def hexByte? : List Char → Option (UInt8 × List Char)
  | c :: d :: rest => do
      let high ← hexValue? c
      match hexValue? d with
      | some low => return ((16 * high + low).toUInt8, rest)
      | none => return (high.toUInt8, d :: rest)
  | [c] => (hexValue? c).map fun value => (value.toUInt8, [])
  | [] => none

/-- The bytes of an escape, of which the backslash is read, and what follows it. -/
def readEscape : List Char → Bytes × List Char
  | [] => ([0x5c], [])
  | c :: rest =>
      match escapeByte? c, octalValue? c with
      | some b, _ => ([b], rest)
      | none, some _ =>
          let (value, rest) := octalDigits 0 3 (c :: rest)
          ([value.toUInt8], rest)
      | none, none => (0x5c :: charBytes c, rest)

/-- A text with its escapes replaced, in which octal numbers can have a further zero in front. One
escape ends all output; the result tells whether it came. -/
def unescape (fuel : Nat) (text : List Char) : Bytes × Bool :=
  let behind (bytes : Bytes) (rest : Bytes × Bool) := (bytes ++ rest.1, rest.2)
  match fuel, text with
  | _ + 1, '\\' :: 'c' :: _ => ([], true)
  | fuel + 1, '\\' :: '0' :: rest =>
      let (value, rest) := octalDigits 0 3 rest
      behind [value.toUInt8] (unescape fuel rest)
  | fuel + 1, '\\' :: rest =>
      let (bytes, rest) := readEscape rest
      behind bytes (unescape fuel rest)
  | fuel + 1, c :: rest => behind (charBytes c) (unescape fuel rest)
  | _, _ => ([], false)

/-- The text of `echo`, with its escapes replaced. -/
def echoed (args : List String) : Output :=
  let (args, ending) : List String × Bytes := match args with
    | "-n" :: rest => (rest, [])
    | _ => (args, [10])
  let text := " ".intercalate args
  let (bytes, ended) := unescape (text.length + 1) text.toList
  .ofBytes (if ended then bytes else bytes ++ ending)

/-! ### Conversions -/

structure Conversion where
  /-- How it is written, the percent sign apart. -/
  text : List Char
  flags : List Char
  width : Nat
  precision? : Option Nat
  letter : Char
  deriving Repr, Inhabited

def readDecimal (text : List Char) : Nat × List Char :=
  let digits := text.takeWhile Char.isDigit
  (digits.foldl (fun n c => 10 * n + (c.toNat - '0'.toNat)) 0, text.drop digits.length)

/-- The first argument as a number, and the others. -/
def takeNumber (args : List String) : Nat × List String :=
  (((args.head?.getD "").toNat?).getD 0, args.drop 1)

/-- Reads a conversion behind its percent sign. A star takes an argument for the width or the
precision; the result tells which arguments are left. -/
def readConversion? (text : List Char) (args : List String) :
    Option (Conversion × List Char × List String) :=
  let number (text : List Char) (args : List String) : Nat × List Char × List String :=
    match text with
    | '*' :: rest =>
        let (value, args) := takeNumber args
        (value, rest, args)
    | _ =>
        let (value, rest) := readDecimal text
        (value, rest, args)
  let flags := text.takeWhile fun c => "-+ #0".contains c
  let (width, rest, args) := number (text.drop flags.length) args
  let (precision?, rest, args) := match rest with
    | '.' :: rest =>
        let (precision, rest, args) := number rest args
        (some precision, rest, args)
    | rest => (none, rest, args)
  match rest with
  | letter :: rest =>
      some (⟨text.take (text.length - rest.length), flags, width, precision?, letter⟩, rest, args)
  | [] => none

/-- Bytes filled up to a width. -/
def Conversion.pad (c : Conversion) (bytes : Bytes) : Bytes :=
  let blanks := List.replicate (c.width - bytes.length) (0x20 : UInt8)
  if c.flags.contains '-' then bytes ++ blanks else blanks ++ bytes

/-- A number with its sign and digits, filled up to the width and the precision. -/
def Conversion.number (c : Conversion) (sign : String) (digits : String) : Bytes :=
  let zeros (count : Nat) := String.ofList (List.replicate count '0')
  let digits := zeros ((c.precision?.getD 1) - digits.length) ++ digits
  let filled :=
    if c.flags.contains '0' && !c.flags.contains '-' && c.precision?.isNone then
      zeros (c.width - sign.length - digits.length) ++ digits
    else digits
  c.pad (sign ++ filled).toUTF8.toList

/-- The integer that an argument stands for, and what of it was not read. -/
def readNumber (text : String) : Int × List Char :=
  let (negative, body) := match text.toList.dropWhile fun c => " \t\n".contains c with
    | '-' :: rest => (true, rest)
    | '+' :: rest => (false, rest)
    | rest => (false, rest)
  let (value, rest) := match body with
    | '\'' :: c :: _ | '"' :: c :: _ => (c.toNat, [])
    | '0' :: 'x' :: rest | '0' :: 'X' :: rest =>
        let digits := rest.takeWhile fun c => (hexValue? c).isSome
        (digits.foldl (fun n c => 16 * n + (hexValue? c).getD 0) 0, rest.drop digits.length)
    | '0' :: rest => octalDigits 0 64 rest
    | rest => readDecimal rest
  (if negative then -value else value, rest)

/-- The nearest number that fits into 64 bits, for conversions with a sign and those without. -/
def clamp (signed : Bool) (value : Int) : Int :=
  let half : Int := (1 <<< 63 : Nat)
  let (low, high) := if signed then (-half, half - 1) else (1 - 2 * half, 2 * half - 1)
  if value < low then low else if high < value then high else value

def Conversion.isSigned (c : Conversion) : Bool :=
  "di".contains c.letter

/-- An argument as a conversion shows it, and whether that ends all output; none for a conversion
that is not known. -/
def Conversion.show? (c : Conversion) (argument : String) : Option (Bytes × Bool) :=
  let bytes := argument.toUTF8.toList
  let value := clamp c.isSigned (readNumber argument).1
  let plainly (bytes : Bytes) : Option (Bytes × Bool) := some (bytes, false)
  let word := (BitVec.ofInt 64 value).toNat
  let signOf (negative : Bool) :=
    if negative then "-"
    else if c.flags.contains '+' then "+"
    else if c.flags.contains ' ' then " " else ""
  let mark (text : String) := if c.flags.contains '#' && word != 0 then text else ""
  match c.letter with
  | 's' => plainly (c.pad (bytes.take (c.precision?.getD bytes.length)))
  | 'b' =>
      let (plain, ended) := unescape (argument.length + 1) argument.toList
      some (c.pad (plain.take (c.precision?.getD plain.length)), ended)
  | 'c' => plainly (c.pad (if bytes.isEmpty then [0] else bytes.take 1))
  | 'd' | 'i' => plainly (c.number (signOf (value < 0)) (toString value.natAbs))
  | 'u' => plainly (c.number "" (toString word))
  | 'o' => plainly (c.number (mark "0") (String.ofList (Nat.toDigits 8 word)))
  | 'x' => plainly (c.number (mark "0x") (String.ofList (Nat.toDigits 16 word)))
  | 'X' => plainly (c.number (mark "0X") (String.ofList (Nat.toDigits 16 word)).toUpper)
  | _ => none

/-! ### Formats -/

/-- Whether a conversion reads its argument as a number. -/
def Conversion.isNumeric (c : Conversion) : Bool :=
  "diuoxX".contains c.letter

/-- What can be wrong with an argument as a number. -/
inductive NumberFault where
  | notNumeric
  | partlyRead
  | outOfRange
  deriving DecidableEq, Repr, Inhabited

def Conversion.fault? (c : Conversion) (argument : String) : Option NumberFault :=
  let (value, left) := readNumber argument
  if !c.isNumeric || argument.isEmpty then none
  else if left.length = argument.length then some .notNumeric
  else if !left.isEmpty then some .partlyRead
  else if clamp c.isSigned value ≠ value then some .outOfRange
  else none

def NumberFault.text (fault : NumberFault) (printer : Printer) (argument : String) : String :=
  match printer, fault with
  | .command _, .notNumeric => s!"{argument}: expected numeric value"
  | .command _, .partlyRead => s!"{argument}: not completely converted"
  | .command _, .outOfRange => s!"{argument}: Numerical result out of range"
  | .program, .notNumeric => s!"‘{argument}’: expected a numeric value"
  | .program, .partlyRead => s!"‘{argument}’: value not completely converted"
  | .program, .outOfRange => s!"‘{argument}’: Numerical result out of range"

/-- The complaint about a conversion that is not known, or that lacks its letter. -/
def Printer.refusal (printer : Printer) (text : List Char) (complete : Bool) : String :=
  let name := String.ofList ('%' :: text)
  match printer with
  | .program => s!"{name}: invalid conversion specification"
  | .command _ => if complete then s!"{name}: invalid directive" else "missing format character"

/-- What printing gave so far. -/
structure Printed where
  /-- Pieces of output, the latest first. -/
  pieces : List Bytes := []
  /-- Complaints about arguments. -/
  complaints : List String := []
  /-- What is wrong with the format. -/
  mistake? : Option String := none
  /-- The arguments that are left. -/
  args : List String
  /-- Whether an argument was asked for. -/
  asked : Bool := false
  /-- Whether an argument ended all output. -/
  ended : Bool := false

def Printed.push (p : Printed) (bytes : Bytes) : Printed :=
  { p with pieces := bytes :: p.pieces }

def printOnce (printer : Printer) (fuel : Nat) (p : Printed) (format : List Char) : Printed :=
  match fuel, format with
  | fuel + 1, '\\' :: rest =>
      let hex? : Option (UInt8 × List Char) := match printer, rest with
        | .program, 'x' :: digits => hexByte? digits
        | _, _ => none
      match hex? with
      | some (b, rest) => printOnce printer fuel (p.push [b]) rest
      | none =>
          let (bytes, rest) := readEscape rest
          printOnce printer fuel (p.push bytes) rest
  | fuel + 1, '%' :: '%' :: rest => printOnce printer fuel (p.push [0x25]) rest
  | fuel + 1, '%' :: rest =>
      match readConversion? rest p.args with
      | none => { p with mistake? := some (printer.refusal rest false) }
      | some (c, rest, args) =>
          let argument := args.head?.getD ""
          match c.show? argument with
          | none => { p with mistake? := some (printer.refusal c.text true) }
          | some (bytes, ended) =>
              let complaint? := (c.fault? argument).map fun fault => fault.text printer argument
              let p : Printed :=
                { p.push bytes with
                  complaints := p.complaints ++ complaint?.toList
                  args := args.drop 1
                  asked := true
                  ended := ended }
              if ended then p else printOnce printer fuel p rest
  | fuel + 1, c :: rest => printOnce printer fuel (p.push (charBytes c)) rest
  | _, _ => p

/-- Prints a format until no arguments are left. -/
def printAll (printer : Printer) (fuel : Nat) (format : List Char) (p : Printed) : Printed :=
  let next := printOnce printer (format.length + 1) { p with asked := false } format
  let goesOn := next.asked && !next.args.isEmpty && !next.ended && next.mistake?.isNone
  match fuel with
  | 0 => next
  | fuel + 1 => if goesOn then printAll printer fuel format next else next

def printFormat (printer : Printer) (format : String) (args : List String) : Deed :=
  let p := printAll printer args.length format.toList { args := args }
  let complaints := p.complaints ++ p.mistake?.toList
  let excess? : Option String :=
    if p.asked || p.mistake?.isSome || printer ≠ .program then none
    else p.args.head?.map fun arg =>
      s!"warning: ignoring excess arguments, starting with ‘{arg}’"
  { out := .ofBytes p.pieces.reverse.flatten
    err := String.join
      ((complaints ++ excess?.toList).map fun text => s!"{printer.label}: {text}\n")
    code := if complaints.isEmpty then 0
      else if p.mistake?.isSome && printer ≠ .program then 2 else 1 }

/-- The line that points to more help. -/
def helpLine (tool : String) : String :=
  s!"Try '{tool} --help' for more information.\n"

/-- Formatted printing. -/
def printf (printer : Printer) (args : List String) : Deed :=
  match printer, args with
  | .command label, [] => .fails 2 s!"{label}: usage: printf format [arg ...]\n"
  | .program, [] => .fails 1 ("printf: missing operand\n" ++ helpLine "printf")
  | _, "--" :: format :: args => printFormat printer format args
  | .program, format :: args => printFormat printer format args
  | .command label, format :: args =>
      match format.toList with
      | '-' :: c :: _ => .fails 2 s!"{label}: Illegal option -{c}\n"
      | _ => printFormat printer format args

end Workbench.Sandbox
