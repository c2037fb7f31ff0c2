import Workbench.Lang.Word

/-!
# Integers of variable length

Seven bits a byte, lowest first; the top bit says that more follow. Writing is always the shortest
form. Reading also accepts longer forms as long as they fit the width, and refuses what does not
fit.
-/

namespace Workbench.Wasm

open Lang (Word)

abbrev Bytes := List UInt8

/-- The rest of the input behind something that was read; `none` if it is malformed. -/
abbrev Reader (α : Type) := Bytes → Option (α × Bytes)

namespace Leb128

/-! ### Writing -/

def unsigned (n : Nat) : Bytes :=
  if n < 128 then [n.toUInt8] else (n % 128 + 128).toUInt8 :: unsigned (n / 128)
termination_by n
decreasing_by omega

/-- The low seven bits of an integer. -/
def lowBits (n : Int) : Nat :=
  (n % 128).toNat

/-- An integer, in two's complement. -/
def signed (n : Int) : Bytes :=
  if -64 ≤ n ∧ n < 64 then [(lowBits n).toUInt8]
  else (lowBits n + 128).toUInt8 :: signed (n / 128)
termination_by n.natAbs
decreasing_by omega

/-- A word, as a signed integer. -/
def word (w : Word) : Bytes :=
  signed w.toInt

/-! ### Reading -/

/-- A natural number of at most so many bits. -/
def readUnsigned (bits : Nat) : Reader Nat
  | [] => none
  | b :: rest =>
      let n := b.toNat
      if n < 128 then if n < 1 <<< bits then some (n, rest) else none
      else if 7 < bits then
        (readUnsigned (bits - 7) rest).map fun (high, rest) => (n - 128 + 128 * high, rest)
      else none

/-- An integer in two's complement of at most so many bits. -/
def readSigned (bits : Nat) : Reader Int
  | [] => none
  | b :: rest =>
      let n := b.toNat
      if n < 128 then
        let value : Int := if n < 64 then n else (n : Int) - 128
        let half : Int := (1 <<< (bits - 1) : Nat)
        if -half ≤ value ∧ value < half then some (value, rest) else none
      else if 7 < bits then
        (readSigned (bits - 7) rest).map fun (high, rest) => ((n : Int) - 128 + 128 * high, rest)
      else none

end Leb128

end Workbench.Wasm
