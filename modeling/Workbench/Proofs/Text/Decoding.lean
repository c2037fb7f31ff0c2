import Workbench.Text.Utf8
import Workbench.Proofs.Lang.Texts

/-!
# Bytes that are a text

The reader replaces nothing exactly if the bytes are those of a text, and gives that text then. Its
states are described by the characters that can still come of them: the bytes that were read are the
first ones of each of these characters, and each of them is read if its other bytes follow.
-/

namespace Workbench.Text

variable {b : UInt8} {u : Unfinished} {front bytes rest : List UInt8} {v : Nat}

/-! ### The first byte of a character -/

/-- The range of the second byte behind a first one. -/
def secondLow (b : Nat) : Nat :=
  if b = 0xe0 then 0xa0 else if b = 0xf0 then 0x90 else tailLow

def secondHigh (b : Nat) : Nat :=
  if b = 0xed then 0x9f else if b = 0xf4 then 0x8f else tailHigh

section

variable {b x : Nat}

theorem secondLow_le_iff : secondLow b ≤ x ↔
    0x80 ≤ x ∧ (b = 0xe0 → 0xa0 ≤ x) ∧ (b = 0xf0 → 0x90 ≤ x) := by
  unfold secondLow tailLow
  split
  · omega
  · split <;> omega

theorem le_secondHigh_iff : x ≤ secondHigh b ↔
    x ≤ 0xbf ∧ (b = 0xed → x ≤ 0x9f) ∧ (b = 0xf4 → x ≤ 0x8f) := by
  unfold secondHigh tailHigh
  split
  · omega
  · split <;> omega

theorem beginChar_one (h : b < 0x80) : beginChar b = ([some (Char.ofNat b)], none) :=
  if_pos h

theorem beginChar_two (h : 0xc2 ≤ b ∧ b ≤ 0xdf) :
    beginChar b = ([], some ⟨b % 0x20, 0, tailLow, tailHigh⟩) := by
  rw [beginChar, if_neg (by omega), if_pos h]

theorem beginChar_three (h : 0xe0 ≤ b ∧ b ≤ 0xef) :
    beginChar b = ([], some ⟨b % 0x10, 1, secondLow b, secondHigh b⟩) := by
  rw [beginChar, if_neg (by omega), if_neg (by omega)]
  by_cases first : b = 0xe0
  · subst first
    rfl
  by_cases surrogate : b = 0xed
  · subst surrogate
    rfl
  rw [if_neg first, if_neg surrogate, if_pos (by omega), secondLow, if_neg first,
    if_neg (by omega), secondHigh, if_neg surrogate, if_neg (by omega)]

theorem beginChar_four (h : 0xf0 ≤ b ∧ b ≤ 0xf4) :
    beginChar b = ([], some ⟨b % 8, 2, secondLow b, secondHigh b⟩) := by
  rw [beginChar, if_neg (by omega), if_neg (by omega), if_neg (by omega), if_neg (by omega),
    if_neg (by omega)]
  by_cases first : b = 0xf0
  · subst first
    rfl
  by_cases last : b = 0xf4
  · subst last
    rfl
  rw [if_neg first, if_pos (by omega), secondLow, if_neg (by omega), if_neg first, secondHigh,
    if_neg (by omega), if_neg last]

theorem beginChar_other (h : 0x80 ≤ b ∧ b ≤ 0xc1 ∨ 0xf5 ≤ b) :
    beginChar b = ([none], none) := by
  rw [beginChar, if_neg (by omega), if_neg (by omega), if_neg (by omega), if_neg (by omega),
    if_neg (by omega), if_neg (by omega), if_neg (by omega), if_neg (by omega)]

end

/-! ### Characters that have begun -/

/-- A number without its last digits to the base of 64. -/
def upper (v : Nat) : Nat → Nat
  | 0 => v
  | n + 1 => upper v n / 64

/-- The last bytes of a character in order, one more than the given count. -/
def tailBytes (v : Nat) : Nat → List UInt8
  | 0 => [UInt8.ofNat (v % 64 + 128)]
  | n + 1 => UInt8.ofNat (upper v (n + 1) % 64 + 128) :: tailBytes v n

/-- The number of a character that can come of an unfinished one. -/
structure Unfinished.Fits (u : Unfinished) (v : Nat) : Prop where
  value : upper v (u.missing + 1) = u.value
  low : u.low ≤ upper v u.missing % 64 + 128
  high : upper v u.missing % 64 + 128 ≤ u.high

/-- The bytes read so far are the first ones of each character that can come. -/
structure Begun (front : List UInt8) (u : Unfinished) : Prop where
  low : tailLow ≤ u.low
  high : u.high ≤ tailHigh
  comes : ∀ v, u.Fits v → ∃ c : Char, c.toNat = v ∧
    String.utf8EncodeChar c = front ++ tailBytes v u.missing

theorem exists_char (valid : v.isValidChar) : ∃ c : Char, c.toNat = v :=
  ⟨Char.ofNatAux v valid, rfl⟩

theorem ofNat_eq_iff {n : Nat} (bound : n < 256) : UInt8.ofNat n = b ↔ n = b.toNat := by
  rw [← UInt8.toNat_inj, UInt8.toNat_ofNat', Nat.mod_eq_of_lt bound]

theorem exists_byte {n : Nat} (bound : n < 256) : ∃ b : UInt8, b.toNat = n :=
  ⟨UInt8.ofNat n, ((ofNat_eq_iff bound).1 rfl).symm⟩

theorem begun_two (h : 0xc2 ≤ b.toNat ∧ b.toNat ≤ 0xdf) :
    Begun [b] ⟨b.toNat % 0x20, 0, tailLow, tailHigh⟩ := by
  refine ⟨Nat.le_refl _, Nat.le_refl _, fun v fits => ?_⟩
  have value : v / 64 = b.toNat % 0x20 := fits.value
  obtain ⟨c, rfl⟩ := exists_char (v := v) (by unfold Nat.isValidChar; omega)
  have lead : UInt8.ofNat (c.toNat / 64 % 32 + 192) = b :=
    (ofNat_eq_iff (by omega)).2 (by omega)
  refine ⟨c, rfl, ?_⟩
  simp only [String.utf8EncodeChar, Char.toNat_val]
  rw [if_neg (by omega), if_pos (by omega), lead]
  rfl

theorem begun_three (h : 0xe0 ≤ b.toNat ∧ b.toNat ≤ 0xef) :
    Begun [b] ⟨b.toNat % 0x10, 1, secondLow b.toNat, secondHigh b.toNat⟩ := by
  refine ⟨(secondLow_le_iff.1 (Nat.le_refl _)).1, (le_secondHigh_iff.1 (Nat.le_refl _)).1,
    fun v fits => ?_⟩
  have value : v / 64 / 64 = b.toNat % 0x10 := fits.value
  have low := secondLow_le_iff.1 (show secondLow b.toNat ≤ v / 64 % 64 + 128 from fits.low)
  have high := le_secondHigh_iff.1 (show v / 64 % 64 + 128 ≤ secondHigh b.toNat from fits.high)
  -- The second byte keeps away what is too small for three bytes, and surrogates.
  obtain ⟨c, rfl⟩ := exists_char (v := v) (by unfold Nat.isValidChar; omega)
  have lead : UInt8.ofNat (c.toNat / 4096 % 16 + 224) = b :=
    (ofNat_eq_iff (by omega)).2 (by omega)
  refine ⟨c, rfl, ?_⟩
  simp only [String.utf8EncodeChar, Char.toNat_val]
  rw [if_neg (by omega), if_neg (by omega), if_pos (by omega), lead]
  rfl

theorem begun_four (h : 0xf0 ≤ b.toNat ∧ b.toNat ≤ 0xf4) :
    Begun [b] ⟨b.toNat % 8, 2, secondLow b.toNat, secondHigh b.toNat⟩ := by
  refine ⟨(secondLow_le_iff.1 (Nat.le_refl _)).1, (le_secondHigh_iff.1 (Nat.le_refl _)).1,
    fun v fits => ?_⟩
  have value : v / 64 / 64 / 64 = b.toNat % 8 := fits.value
  have low := secondLow_le_iff.1 (show secondLow b.toNat ≤ v / 64 / 64 % 64 + 128 from fits.low)
  have high := le_secondHigh_iff.1
    (show v / 64 / 64 % 64 + 128 ≤ secondHigh b.toNat from fits.high)
  -- The second byte keeps away what is too small for four bytes, and what is no character.
  obtain ⟨c, rfl⟩ := exists_char (v := v) (by unfold Nat.isValidChar; omega)
  have lead : UInt8.ofNat (c.toNat / 262144 % 8 + 240) = b :=
    (ofNat_eq_iff (by omega)).2 (by omega)
  have second : c.toNat / 4096 = c.toNat / 64 / 64 := by omega
  refine ⟨c, rfl, ?_⟩
  simp only [String.utf8EncodeChar, Char.toNat_val]
  rw [if_neg (by omega), if_neg (by omega), if_neg (by omega), lead, second]
  rfl

/-- A first byte is a character by itself, or begins one, or has to be replaced. -/
theorem beginChar_cases (b : UInt8) :
    (∃ c : Char, beginChar b.toNat = ([some c], none) ∧ String.utf8EncodeChar c = [b]) ∨
    (∃ u, beginChar b.toNat = ([], some u) ∧ Begun [b] u) ∨
    beginChar b.toNat = ([none], none) := by
  by_cases one : b.toNat < 0x80
  · obtain ⟨c, number⟩ := exists_char (v := b.toNat) (by unfold Nat.isValidChar; omega)
    refine .inl ⟨c, ?_, ?_⟩
    · rw [beginChar_one one, ← number, Char.ofNat_toNat]
    · simp only [String.utf8EncodeChar, Char.toNat_val]
      rw [if_pos (by omega), number, UInt8.ofNat_toNat]
  by_cases two : 0xc2 ≤ b.toNat ∧ b.toNat ≤ 0xdf
  · exact .inr (.inl ⟨_, beginChar_two two, begun_two two⟩)
  by_cases three : 0xe0 ≤ b.toNat ∧ b.toNat ≤ 0xef
  · exact .inr (.inl ⟨_, beginChar_three three, begun_three three⟩)
  by_cases four : 0xf0 ≤ b.toNat ∧ b.toNat ≤ 0xf4
  · exact .inr (.inl ⟨_, beginChar_four four, begun_four four⟩)
  · exact .inr (.inr (beginChar_other (by omega)))

/-- Every character is one byte or begins with one. -/
theorem exists_begun (c : Char) :
    (∃ b : UInt8, beginChar b.toNat = ([some c], none) ∧ String.utf8EncodeChar c = [b]) ∨
    ∃ (b : UInt8) (u : Unfinished), beginChar b.toNat = ([], some u) ∧ Begun [b] u ∧
      u.Fits c.toNat := by
  have valid : c.toNat.isValidChar := c.valid
  unfold Nat.isValidChar at valid
  by_cases one : c.toNat < 0x80
  · obtain ⟨b, byte⟩ := exists_byte (n := c.toNat) (by omega)
    refine .inl ⟨b, ?_, ?_⟩
    · rw [beginChar_one (by omega), byte, Char.ofNat_toNat]
    · simp only [String.utf8EncodeChar, Char.toNat_val]
      rw [if_pos (by omega), ← byte, UInt8.ofNat_toNat]
  refine .inr ?_
  by_cases two : c.toNat < 0x800
  · obtain ⟨b, byte⟩ := exists_byte (n := c.toNat / 64 + 0xc0) (by omega)
    have lead : 0xc2 ≤ b.toNat ∧ b.toNat ≤ 0xdf := by omega
    refine ⟨b, _, beginChar_two lead, begun_two lead, ?_, ?_, ?_⟩
    all_goals simp only [upper, tailLow, tailHigh]
    all_goals omega
  by_cases three : c.toNat < 0x10000
  · obtain ⟨b, byte⟩ := exists_byte (n := c.toNat / 64 / 64 + 0xe0) (by omega)
    have lead : 0xe0 ≤ b.toNat ∧ b.toNat ≤ 0xef := by omega
    refine ⟨b, _, beginChar_three lead, begun_three lead, ?_, ?_, ?_⟩
    all_goals simp only [upper, secondLow_le_iff, le_secondHigh_iff]
    all_goals omega
  · obtain ⟨b, byte⟩ := exists_byte (n := c.toNat / 64 / 64 / 64 + 0xf0) (by omega)
    have lead : 0xf0 ≤ b.toNat ∧ b.toNat ≤ 0xf4 := by omega
    refine ⟨b, _, beginChar_four lead, begun_four lead, ?_, ?_, ?_⟩
    all_goals simp only [upper, secondLow_le_iff, le_secondHigh_iff]
    all_goals omega

/-! ### The other bytes -/

theorem piecesFrom_cons (state : Option Unfinished) (b : UInt8) (rest : List UInt8) :
    piecesFrom state (b :: rest) =
      (feed state b.toNat).1 ++ piecesFrom (feed state b.toNat).2 rest := rfl

/-- A byte out of range ends an unfinished character as a replacement. -/
theorem feed_of_stray (stray : ¬ (u.low ≤ b.toNat ∧ b.toNat ≤ u.high)) :
    feed (some u) b.toNat = (none :: (beginChar b.toNat).1, (beginChar b.toNat).2) := by
  rw [feed, if_neg stray]

/-- The state behind a byte in range that is not the last one. -/
def Unfinished.next (u : Unfinished) (n : Nat) (b : UInt8) : Unfinished :=
  ⟨u.value * 0x40 + b.toNat % 0x40, n, tailLow, tailHigh⟩

theorem feed_of_last (range : u.low ≤ b.toNat ∧ b.toNat ≤ u.high) (last : u.missing = 0) :
    feed (some u) b.toNat = ([some (Char.ofNat (u.value * 0x40 + b.toNat % 0x40))], none) := by
  simp only [feed, if_pos range, last]

theorem feed_of_more (range : u.low ≤ b.toNat ∧ b.toNat ≤ u.high) {n : Nat}
    (more : u.missing = n + 1) : feed (some u) b.toNat = ([], some (u.next n b)) := by
  simp only [feed, if_pos range, more]
  rfl

/-- A character that can come still can behind its next byte. -/
theorem Unfinished.Fits.next (fits : u.Fits v) {n : Nat} (more : u.missing = n + 1)
    (byte : b.toNat = upper v (n + 1) % 64 + 128) : (u.next n b).Fits v := by
  have value : upper v (n + 1) / 64 = u.value := by
    rw [← fits.value, more]
    rfl
  refine ⟨?_, ?_, ?_⟩
  · show upper v (n + 1) = u.value * 0x40 + b.toNat % 0x40
    omega
  · show 0x80 ≤ upper v n % 64 + 128
    omega
  · show upper v n % 64 + 128 ≤ 0xbf
    omega

/-- What can come behind a byte could come before. -/
theorem Begun.fits_of_next (begun : Begun front u) {n : Nat} (more : u.missing = n + 1)
    (range : u.low ≤ b.toNat ∧ b.toNat ≤ u.high) (fits : (u.next n b).Fits v) :
    u.Fits v ∧ b.toNat = upper v (n + 1) % 64 + 128 := by
  have low : 0x80 ≤ u.low := begun.low
  have high : u.high ≤ 0xbf := begun.high
  have value : upper v (n + 1) = u.value * 0x40 + b.toNat % 0x40 := fits.value
  have byte : b.toNat = upper v (n + 1) % 64 + 128 := by omega
  refine ⟨⟨?_, ?_, ?_⟩, byte⟩
  · rw [more]
    show upper v (n + 1) / 64 = u.value
    omega
  · rw [more, ← byte]
    exact range.1
  · rw [more, ← byte]
    exact range.2

theorem Begun.next (begun : Begun front u) {n : Nat} (more : u.missing = n + 1)
    (range : u.low ≤ b.toNat ∧ b.toNat ≤ u.high) : Begun (front ++ [b]) (u.next n b) := by
  refine ⟨Nat.le_refl _, Nat.le_refl _, fun v fits => ?_⟩
  obtain ⟨fits, byte⟩ := begun.fits_of_next more range fits
  obtain ⟨c, number, bytes⟩ := begun.comes v fits
  refine ⟨c, number, ?_⟩
  rw [bytes, more, tailBytes, ← byte, UInt8.ofNat_toNat, List.append_assoc]
  rfl

theorem Begun.last (begun : Begun front u) (last : u.missing = 0)
    (range : u.low ≤ b.toNat ∧ b.toNat ≤ u.high) :
    ∃ c, feed (some u) b.toNat = ([some c], none) ∧ String.utf8EncodeChar c = front ++ [b] := by
  have low : 0x80 ≤ u.low := begun.low
  have high : u.high ≤ 0xbf := begun.high
  have byte : b.toNat = (u.value * 0x40 + b.toNat % 0x40) % 64 + 128 := by omega
  obtain ⟨c, number, bytes⟩ := begun.comes (u.value * 0x40 + b.toNat % 0x40) ⟨by
    rw [last]
    show (u.value * 0x40 + b.toNat % 0x40) / 64 = u.value
    omega, by
    rw [last, upper, ← byte]
    exact range.1, by
    rw [last, upper, ← byte]
    exact range.2⟩
  refine ⟨c, ?_, ?_⟩
  · rw [feed_of_last range last, ← number, Char.ofNat_toNat]
  · rw [bytes, last, tailBytes, ← byte, UInt8.ofNat_toNat]

/-! ### Characters read -/

/-- An unfinished character is read if its other bytes follow, and replaced if they break off. -/
theorem piecesFrom_tailBytes (fits : u.Fits v) (rest : List UInt8) :
    piecesFrom (some u) (tailBytes v u.missing ++ rest) =
      some (Char.ofNat v) :: piecesFrom none rest ∧
    ∀ k ≤ u.missing, piecesFrom (some u) ((tailBytes v u.missing).take k) = [none] := by
  generalize missing : u.missing = n
  induction n generalizing u with
  | zero =>
      obtain ⟨b, byte⟩ := exists_byte (n := v % 64 + 128) (by omega)
      have value := fits.value
      have low := fits.low
      have high := fits.high
      rw [missing] at value low high
      simp only [upper] at value low high
      refine ⟨?_, fun k none => ?_⟩
      · have number : u.value * 0x40 + b.toNat % 0x40 = v := by omega
        rw [tailBytes, ← byte, UInt8.ofNat_toNat, List.singleton_append, piecesFrom_cons,
          feed_of_last ⟨by omega, by omega⟩ missing, number]
        rfl
      · rw [Nat.le_zero.1 none]
        rfl
  | succ n ih =>
      obtain ⟨b, byte⟩ := exists_byte (n := upper v (n + 1) % 64 + 128) (by omega)
      have range : u.low ≤ b.toNat ∧ b.toNat ≤ u.high := by
        rw [byte, ← missing]
        exact ⟨fits.low, fits.high⟩
      obtain ⟨whole, cut⟩ := ih (fits.next missing byte) rfl
      rw [tailBytes, ← byte, UInt8.ofNat_toNat]
      refine ⟨?_, fun k short => ?_⟩
      · rw [List.cons_append, piecesFrom_cons, feed_of_more range missing]
        exact whole
      · cases k with
        | zero => rfl
        | succ k =>
            rw [List.take_succ_cons, piecesFrom_cons, feed_of_more range missing]
            exact cut k (Nat.le_of_succ_le_succ short)

theorem length_tailBytes (v n : Nat) : (tailBytes v n).length = n + 1 := by
  induction n with
  | zero => rfl
  | succ n ih => rw [tailBytes, List.length_cons, ih]

/-- The bytes of a character are read as this character. -/
theorem pieces_encoded (c : Char) (rest : List UInt8) :
    pieces (String.utf8EncodeChar c ++ rest) = some c :: pieces rest := by
  rcases exists_begun c with ⟨b, begins, bytes⟩ | ⟨b, u, begins, begun, fits⟩
  · rw [bytes, List.singleton_append, pieces, piecesFrom_cons, feed, begins]
    rfl
  · obtain ⟨c', number, bytes⟩ := begun.comes _ fits
    rw [Char.toNat_inj.1 number] at bytes
    rw [bytes, List.singleton_append, List.cons_append, pieces, piecesFrom_cons, feed, begins,
      (piecesFrom_tailBytes fits rest).1, Char.ofNat_toNat]
    rfl

/-- The first bytes of a character, not all of them, are replaced as one. -/
theorem pieces_take (c : Char) {k : Nat} (some : 0 < k)
    (short : k < (String.utf8EncodeChar c).length) :
    pieces ((String.utf8EncodeChar c).take k) = [none] := by
  obtain ⟨k, rfl⟩ := Nat.exists_eq_add_of_le' some
  rcases exists_begun c with ⟨b, -, bytes⟩ | ⟨b, u, begins, begun, fits⟩
  · rw [bytes, List.length_singleton] at short
    omega
  · obtain ⟨c', number, bytes⟩ := begun.comes _ fits
    rw [Char.toNat_inj.1 number] at bytes
    rw [bytes, List.singleton_append, List.length_cons, length_tailBytes] at short
    rw [bytes, List.singleton_append, List.take_succ_cons, pieces, piecesFrom_cons, feed, begins,
      (piecesFrom_tailBytes fits []).2 k (by omega)]
    rfl

/-- An unfinished character comes or is replaced. -/
theorem Begun.comes_or_replaced (begun : Begun front u) (rest : List UInt8) :
    (∃ c later, front ++ rest = String.utf8EncodeChar c ++ later) ∨
      ∃ later, piecesFrom (some u) rest = none :: later := by
  induction rest generalizing front u with
  | nil => exact .inr ⟨[], rfl⟩
  | cons b rest ih =>
      by_cases range : u.low ≤ b.toNat ∧ b.toNat ≤ u.high
      · cases missing : u.missing with
        | zero =>
            obtain ⟨c, -, bytes⟩ := begun.last missing range
            exact .inl ⟨c, rest, by rw [bytes, List.append_assoc]; rfl⟩
        | succ n =>
            rw [piecesFrom_cons, feed_of_more range missing, List.nil_append]
            have onward := ih (begun.next missing range)
            rwa [List.append_assoc, List.singleton_append] at onward
      · rw [piecesFrom_cons, feed_of_stray range]
        exact .inr ⟨_, rfl⟩

/-- Bytes begin with those of a character, or the first piece of them is replaced. -/
theorem begins_or_replaced (some : bytes ≠ []) :
    (∃ c later, bytes = String.utf8EncodeChar c ++ later) ∨
      ∃ later, pieces bytes = none :: later := by
  cases bytes with
  | nil => exact absurd rfl some
  | cons b rest =>
      rw [pieces, piecesFrom_cons, feed]
      rcases beginChar_cases b with ⟨c, -, bytes⟩ | ⟨u, begins, begun⟩ | other
      · exact .inl ⟨c, rest, by rw [bytes]; rfl⟩
      · rw [begins]
        exact begun.comes_or_replaced rest
      · rw [other]
        exact .inr ⟨_, rfl⟩

/-! ### Texts read -/

theorem toUTF8_eq (text : String) :
    text.toUTF8.toList = text.toList.flatMap String.utf8EncodeChar := by
  rw [Lang.toList_eq, String.toUTF8_eq_toByteArray, ← String.ofList_toList (s := text),
    String.toByteArray_ofList, String.toList_ofList, List.utf8Encode, List.data_toByteArray,
    List.toList_toArray]

theorem toUTF8_push (text : String) (c : Char) :
    (text.push c).toUTF8.toList = text.toUTF8.toList ++ String.utf8EncodeChar c := by
  rw [toUTF8_eq, toUTF8_eq, String.toList_push, List.flatMap_append, List.flatMap_singleton]

/-- The bytes of a text are read as its characters, whatever follows. -/
theorem pieces_toUTF8 (text : String) (rest : List UInt8) :
    pieces (text.toUTF8.toList ++ rest) = text.toList.map some ++ pieces rest := by
  rw [toUTF8_eq]
  induction text.toList with
  | nil => rfl
  | cons c chars ih =>
      rw [List.flatMap_cons, List.append_assoc, pieces_encoded, ih]
      rfl

/-- Bytes of which no piece is replaced are those of a text. -/
theorem exists_text (whole : none ∉ pieces bytes) :
    ∃ text : String, text.toUTF8.toList = bytes := by
  induction size : bytes.length using Nat.strongRecOn generalizing bytes with
  | ind n ih =>
      by_cases void : bytes = []
      · exact ⟨"", by rw [void, toUTF8_eq]; rfl⟩
      rcases begins_or_replaced void with ⟨c, later, rfl⟩ | ⟨later, replaced⟩
      · rw [pieces_encoded, List.mem_cons, not_or] at whole
        have shorter : later.length < n := by
          have := List.length_pos_iff.2 (String.utf8EncodeChar_ne_nil (c := c))
          rw [List.length_append] at size
          omega
        obtain ⟨text, rfl⟩ := ih _ shorter whole.2 rfl
        refine ⟨String.ofList (c :: text.toList), ?_⟩
        rw [toUTF8_eq, toUTF8_eq, String.toList_ofList, List.flatMap_cons]
      · rw [replaced] at whole
        exact absurd (List.mem_cons_self ..) whole

theorem map_getD_some (chars : List Char) :
    (chars.map some).map (·.getD replacement) = chars := by
  rw [List.map_map]
  exact List.map_id chars

theorem decodeLossy_toUTF8 (text : String) : decodeLossy text.toUTF8.toList = (text, false) := by
  have read := pieces_toUTF8 text []
  rw [List.append_nil, show pieces [] = [] from rfl, List.append_nil] at read
  simp only [decodeLossy, read, map_getD_some, String.ofList_toList]
  simp

/-- Nothing is replaced exactly in the bytes of a text. -/
theorem decodeLossy_lossless_iff (bytes : List UInt8) :
    (decodeLossy bytes).2 = false ↔ ∃ text : String, text.toUTF8.toList = bytes := by
  constructor
  · intro lossless
    refine exists_text fun replaced => ?_
    have lossy : (decodeLossy bytes).2 = true := List.any_eq_true.2 ⟨none, replaced, rfl⟩
    rw [lossy] at lossless
    cases lossless
  · rintro ⟨text, rfl⟩
    rw [decodeLossy_toUTF8]

/-- Of a text that breaks off inside a character, this character is replaced. -/
theorem decodeLossy_cut (front : String) (c : Char) {k : Nat} (some : 0 < k)
    (short : k < (String.utf8EncodeChar c).length) :
    decodeLossy (front.toUTF8.toList ++ (String.utf8EncodeChar c).take k) =
      (front.push replacement, true) := by
  simp only [decodeLossy, pieces_toUTF8, pieces_take c some short, List.map_append, map_getD_some,
    String.ofList_append, String.ofList_toList]
  simp

end Workbench.Text
