/-!
# Bytes as text

Any sequence of bytes is read as UTF-8. Where it is not, every longest piece that could still have
begun a character, or else a single byte, is read as one replacement. The reader takes one byte
after another and remembers the character that it is in, so a text is not lossy exactly if it never
had to replace.
-/

namespace Workbench.Text

/-! ### Reading byte by byte -/

/-- A character that began and needs more bytes. -/
structure Unfinished where
  /-- The bits read so far. -/
  value : Nat
  /-- How many bytes are missing after the next one. -/
  missing : Nat
  /-- The range of the next byte. -/
  low : Nat
  high : Nat
  deriving DecidableEq, Repr, Inhabited

/-- What is read off: a character, or none for a piece that has to be replaced. -/
abbrev Piece := Option Char

/-- The range of bytes that continue a character, unless its first byte narrows it. -/
def tailLow : Nat := 0x80

/-- The end of that range. -/
def tailHigh : Nat := 0xbf

/-- Reads the first byte of a character. -/
def beginChar (b : Nat) : List Piece × Option Unfinished :=
  if b < 0x80 then ([some (Char.ofNat b)], none)
  else if 0xc2 ≤ b ∧ b ≤ 0xdf then ([], some ⟨b % 0x20, 0, tailLow, tailHigh⟩)
  else if b = 0xe0 then ([], some ⟨0, 1, 0xa0, tailHigh⟩)
  else if b = 0xed then ([], some ⟨0xd, 1, tailLow, 0x9f⟩)
  else if 0xe1 ≤ b ∧ b ≤ 0xef then ([], some ⟨b % 0x10, 1, tailLow, tailHigh⟩)
  else if b = 0xf0 then ([], some ⟨0, 2, 0x90, tailHigh⟩)
  else if 0xf1 ≤ b ∧ b ≤ 0xf3 then ([], some ⟨b % 8, 2, tailLow, tailHigh⟩)
  else if b = 0xf4 then ([], some ⟨4, 2, tailLow, 0x8f⟩)
  else ([none], none)

/-- Reads a byte. One that does not continue a character ends it as a replacement and begins anew.
-/
def feed (state : Option Unfinished) (b : Nat) : List Piece × Option Unfinished :=
  match state with
  | none => beginChar b
  | some u =>
      if u.low ≤ b ∧ b ≤ u.high then
        let value := u.value * 0x40 + b % 0x40
        match u.missing with
        | 0 => ([some (Char.ofNat value)], none)
        | n + 1 => ([], some ⟨value, n, tailLow, tailHigh⟩)
      else
        let (pieces, next) := beginChar b
        (none :: pieces, next)

/-- The pieces of bytes behind those of an unfinished character. -/
def piecesFrom (state : Option Unfinished) : List UInt8 → List Piece
  | [] => if state.isSome then [none] else []
  | b :: rest =>
      let (pieces, next) := feed state b.toNat
      pieces ++ piecesFrom next rest

def pieces (bytes : List UInt8) : List Piece :=
  piecesFrom none bytes

/-! ### Texts -/

/-- What stands for a piece that is not a character. -/
def replacement : Char := '\ufffd'

/-- Bytes as a text, and whether anything was replaced. -/
def decodeLossy (bytes : List UInt8) : String × Bool :=
  let found := pieces bytes
  (String.ofList (found.map (·.getD replacement)), found.any (·.isNone))

end Workbench.Text
