/-!
# Integers in texts

A signed integer of a given width is an optional sign and decimal digits, read from the left.
Reading stops at the first thing that is wrong, so a text with two faults is told by the earlier
one.
-/

namespace Workbench.Text

/-- Why a text is not an integer of a given width. -/
inductive IntegerFault where
  | empty
  | badDigit
  | tooLarge
  | tooSmall
  deriving DecidableEq, Repr, Inhabited

def IntegerFault.text : IntegerFault → String
  | empty => "cannot parse integer from empty string"
  | badDigit => "invalid digit found in string"
  | tooLarge => "number too large to fit in target type"
  | tooSmall => "number too small to fit in target type"

def decimalValue? (c : Char) : Option Nat :=
  if c.isDigit then some (c.toNat - '0'.toNat) else none

/-- Reads digits behind those of a number, which stays at or below a limit; `beyond` is the fault of
a number that would not. -/
def readDigits (limit : Nat) (beyond : IntegerFault) (value : Nat) :
    List Char → Except IntegerFault Nat
  | [] => .ok value
  | c :: rest =>
      match decimalValue? c with
      | none => .error .badDigit
      | some digit =>
          if limit < 10 * value + digit then .error beyond
          else readDigits limit beyond (10 * value + digit) rest

/-- Reads a number of at least one digit. -/
def readNumber (limit : Nat) (beyond : IntegerFault) (digits : List Char) :
    Except IntegerFault Nat :=
  if digits.isEmpty then .error .badDigit else readDigits limit beyond 0 digits

/-- The integer of a text, signed and so many bits wide. -/
def readInteger (bits : Nat) (text : String) : Except IntegerFault Int :=
  match text.toList with
  | [] => .error .empty
  | '+' :: digits => (readNumber (1 <<< (bits - 1) - 1) .tooLarge digits).map Int.ofNat
  | '-' :: digits => (readNumber (1 <<< (bits - 1)) .tooSmall digits).map fun n => -Int.ofNat n
  | digits => (readNumber (1 <<< (bits - 1) - 1) .tooLarge digits).map Int.ofNat

end Workbench.Text
