import Workbench.Wasm.Leb128

/-!
# The SHA-256 digest

A message is padded to whole blocks of 64 bytes, and each block is mixed into a state of eight
words. The schedule of a block is never stored whole: a round uses the first word of a window of
sixteen and moves the window on by one.
-/

namespace Workbench.Seal.Sha256

open Lang (Word)
open Wasm (Bytes)

/-! ### Constants -/

/-- The first 32 bits of the fractional parts of the cube roots of the first 64 primes. -/
def roundConstants : List Word :=
  [0x428a2f98, 0x71374491, 0xb5c0fbcf, 0xe9b5dba5, 0x3956c25b, 0x59f111f1, 0x923f82a4, 0xab1c5ed5,
    0xd807aa98, 0x12835b01, 0x243185be, 0x550c7dc3, 0x72be5d74, 0x80deb1fe, 0x9bdc06a7, 0xc19bf174,
    0xe49b69c1, 0xefbe4786, 0x0fc19dc6, 0x240ca1cc, 0x2de92c6f, 0x4a7484aa, 0x5cb0a9dc, 0x76f988da,
    0x983e5152, 0xa831c66d, 0xb00327c8, 0xbf597fc7, 0xc6e00bf3, 0xd5a79147, 0x06ca6351, 0x14292967,
    0x27b70a85, 0x2e1b2138, 0x4d2c6dfc, 0x53380d13, 0x650a7354, 0x766a0abb, 0x81c2c92e, 0x92722c85,
    0xa2bfe8a1, 0xa81a664b, 0xc24b8b70, 0xc76c51a3, 0xd192e819, 0xd6990624, 0xf40e3585, 0x106aa070,
    0x19a4c116, 0x1e376c08, 0x2748774c, 0x34b0bcb5, 0x391c0cb3, 0x4ed8aa4a, 0x5b9cca4f, 0x682e6ff3,
    0x748f82ee, 0x78a5636f, 0x84c87814, 0x8cc70208, 0x90befffa, 0xa4506ceb, 0xbef9a3f7, 0xc67178f2]

/-- Eight words, mixed by every round. -/
structure State where
  a : Word
  b : Word
  c : Word
  d : Word
  e : Word
  f : Word
  g : Word
  h : Word
  deriving DecidableEq, Repr, Inhabited

namespace State

/-- The first 32 bits of the fractional parts of the square roots of the first eight primes. -/
def initial : State :=
  ⟨0x6a09e667, 0xbb67ae85, 0x3c6ef372, 0xa54ff53a, 0x510e527f, 0x9b05688c, 0x1f83d9ab, 0x5be0cd19⟩

def add (s t : State) : State :=
  ⟨s.a + t.a, s.b + t.b, s.c + t.c, s.d + t.d, s.e + t.e, s.f + t.f, s.g + t.g, s.h + t.h⟩

def toList (s : State) : List Word :=
  [s.a, s.b, s.c, s.d, s.e, s.f, s.g, s.h]

/-- One round on a word of the schedule, to which its constant has been added. -/
def round (s : State) (w : Word) : State :=
  let choice := (s.e &&& s.f) ^^^ (~~~s.e &&& s.g)
  let majority := (s.a &&& s.b) ^^^ (s.a &&& s.c) ^^^ (s.b &&& s.c)
  let up := s.h + (s.e.rotateRight 6 ^^^ s.e.rotateRight 11 ^^^ s.e.rotateRight 25) + choice + w
  let down := (s.a.rotateRight 2 ^^^ s.a.rotateRight 13 ^^^ s.a.rotateRight 22) + majority
  ⟨up + down, s.a, s.b, s.c, s.d + up, s.e, s.f, s.g⟩

end State

/-! ### Words and padding -/

/-- The words of a sequence of bytes, highest byte first; bytes that do not fill a word are dropped.
-/
def wordsOf : Bytes → List Word
  | a :: b :: c :: d :: rest =>
      BitVec.ofNat 32 (((a.toNat * 256 + b.toNat) * 256 + c.toNat) * 256 + d.toNat) :: wordsOf rest
  | _ => []

/-- So many bytes of a number, highest first. -/
def bigEndian : Nat → Nat → Bytes
  | 0, _ => []
  | count + 1, n => ((n >>> (8 * count)) % 256).toUInt8 :: bigEndian count n

@[simp] theorem length_bigEndian (count n : Nat) : (bigEndian count n).length = count := by
  induction count with
  | zero => rfl
  | succ count ih => simp [bigEndian, ih]

/-- How many zero bytes fill a message of a given length up, so that nine bytes more end a block. -/
def zeroCount (length : Nat) : Nat :=
  (119 - length % 64) % 64

/-- What follows a message: a one bit, zeros, and the length of the message in bits. -/
def padding (length : Nat) : Bytes :=
  0x80 :: (List.replicate (zeroCount length) 0 ++ bigEndian 8 (8 * length))

/-- A padded message consists of whole blocks. -/
theorem length_add_padding_mod (length : Nat) : (length + (padding length).length) % 64 = 0 := by
  simp [padding, zeroCount]
  omega

/-! ### Blocks -/

/-- The window moved on by one word: a new word joins at the end. -/
def slide (window : List Word) : List Word :=
  let word (index : Nat) : Word := window[index]?.getD 0
  let early := (word 1).rotateRight 7 ^^^ (word 1).rotateRight 18 ^^^ (word 1 >>> 3)
  let late := (word 14).rotateRight 17 ^^^ (word 14).rotateRight 19 ^^^ (word 14 >>> 10)
  window.tail ++ [word 0 + early + word 9 + late]

/-- The rounds of a block; `window` holds the next sixteen words of the schedule. -/
def rounds (s : State) (window : List Word) : List Word → State
  | [] => s
  | constant :: rest => rounds (s.round (window.headD 0 + constant)) (slide window) rest

/-- A state with the blocks of a sequence of words mixed in; `count` is how many blocks there are.
-/
def mixBlocks : Nat → State → List Word → State
  | 0, s, _ => s
  | count + 1, s, words =>
      mixBlocks count (s.add (rounds s (words.take 16) roundConstants)) (words.drop 16)

/-- The digest of a message. -/
def digest (message : Bytes) : Bytes :=
  let words := wordsOf (message ++ padding message.length)
  (mixBlocks (words.length / 16) .initial words).toList.flatMap fun w => bigEndian 4 w.toNat

/-- A digest has 32 bytes. -/
theorem length_digest (message : Bytes) : (digest message).length = 32 := by
  simp [digest, State.toList]

end Workbench.Seal.Sha256
