/-!
# Byte ranges in a source text

Every token, tree node and diagnostic points back into its source text by a half-open range of
UTF-8 byte offsets. Offsets count bytes and not characters, so a range is meaningful also when it
cuts a multi-byte character; `lineColumn` therefore works on the encoded text.
-/

namespace Workbench.Source

/-- A half-open range of byte offsets. -/
structure Span where
  start : Nat
  stop : Nat
  deriving DecidableEq, Repr, Inhabited

namespace Span

/-- The smallest range that covers both arguments. -/
def merge (a b : Span) : Span :=
  ⟨min a.start b.start, max a.stop b.stop⟩

/-- A range lies within another. -/
def Within (a b : Span) : Prop :=
  b.start ≤ a.start ∧ a.stop ≤ b.stop

instance (a b : Span) : Decidable (a.Within b) :=
  inferInstanceAs (Decidable (_ ∧ _))

theorem within_merge_left (a b : Span) : a.Within (a.merge b) :=
  ⟨Nat.min_le_left _ _, Nat.le_max_left _ _⟩

theorem within_merge_right (a b : Span) : b.Within (a.merge b) :=
  ⟨Nat.min_le_right _ _, Nat.le_max_right _ _⟩

def lineFeed : UInt8 := 10

/-- The line and column of a range's start, both counted from one. Columns count bytes, and a start
beyond the text is taken as its end. -/
def lineColumn (span : Span) (text : String) : Nat × Nat :=
  let before := text.toUTF8.toList.take span.start
  (before.count lineFeed + 1, (before.reverse.takeWhile (· != lineFeed)).length + 1)

end Span

end Workbench.Source
