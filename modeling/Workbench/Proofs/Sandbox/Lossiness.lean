import Workbench.Sandbox.Course
import Workbench.Proofs.Sandbox.Capturing
import Workbench.Proofs.Text.Decoding

/-!
# Outputs that are flagged as lossy

What is kept of an output is read as a text, and the output is flagged if something in it had to be
replaced. The flag does not tell why. It is right about the output as long as what is kept does not
end inside a character; if it does, the start of that character is replaced, and the output is
flagged although it may be a text.
-/

namespace Workbench.Sandbox

open Wasm (Bytes)

variable {stream : Bytes} {limit : Nat} {text front : String} {c : Char} {d : Delivery}

/-! ### Streams and characters -/

/-- The first bytes of a stream, as many as there are, belong to characters that are there as a
whole: nothing among them is no text. -/
def SoundUpTo (stream : Bytes) (limit : Nat) : Prop :=
  ∃ (text : String) (rest : Bytes), stream = text.toUTF8.toList ++ rest ∧
    min limit stream.length ≤ text.utf8ByteSize

/-- The first bytes of a stream end inside a character, behind a text. -/
structure CutsAt (stream : Bytes) (limit : Nat) (front : String) (c : Char) : Prop where
  begins : ∃ rest, stream = (front.push c).toUTF8.toList ++ rest
  behind : front.utf8ByteSize < limit
  inside : limit < (front.push c).utf8ByteSize

def CutsInside (stream : Bytes) (limit : Nat) : Prop :=
  ∃ front c, CutsAt stream limit front c

/-- A limit falls between two characters of a text or into one. -/
theorem exists_cut (text : String) (within : limit ≤ text.utf8ByteSize) :
    (∃ front rest : String, text = front ++ rest ∧ front.utf8ByteSize = limit) ∨
      ∃ (front : String) (c : Char) (rest : String), text = front.push c ++ rest ∧
        front.utf8ByteSize < limit ∧ limit < (front.push c).utf8ByteSize := by
  induction text using String.push_induction with
  | empty =>
      refine .inl ⟨"", "", rfl, ?_⟩
      rw [String.utf8ByteSize_empty] at within ⊢
      omega
  | push text c ih =>
      by_cases whole : limit = (text.push c).utf8ByteSize
      · exact .inl ⟨text.push c, "", String.append_empty.symm, whole.symm⟩
      by_cases behind : text.utf8ByteSize < limit
      · exact .inr ⟨text, c, "", String.append_empty.symm, behind, by omega⟩
      have onward : ∀ front rest : String, (front ++ rest).push c = front ++ rest.push c := by
        intro front rest
        rw [String.push_eq_append, String.push_eq_append, String.append_assoc]
      rcases ih (Nat.le_of_not_lt behind) with
        ⟨front, rest, rfl, size⟩ | ⟨front, c', rest, rfl, cut⟩
      · exact .inl ⟨front, rest.push c, onward front rest, size⟩
      · exact .inr ⟨front, c', rest.push c, onward _ rest, cut⟩

/-! ### Limits inside characters -/

theorem CutsAt.soundUpTo (cut : CutsAt stream limit front c) : SoundUpTo stream limit := by
  obtain ⟨rest, begins⟩ := cut.begins
  exact ⟨front.push c, rest, begins, Nat.le_trans (Nat.min_le_left ..) (Nat.le_of_lt cut.inside)⟩

theorem CutsAt.lt_length (cut : CutsAt stream limit front c) : limit < stream.length := by
  obtain ⟨rest, begins⟩ := cut.begins
  have inside := cut.inside
  rw [begins, List.length_append, Lang.length_toUTF8]
  omega

/-- Of the character that the limit falls into, what was kept is replaced. -/
theorem CutsAt.decodeLossy_take (cut : CutsAt stream limit front c) :
    Text.decodeLossy (stream.take limit) = (front.push Text.replacement, true) := by
  obtain ⟨rest, begins⟩ := cut.begins
  have behind := cut.behind
  have inside := cut.inside
  rw [String.utf8ByteSize_push, ← String.length_utf8EncodeChar] at inside
  have kept : stream.take limit =
      front.toUTF8.toList ++ (String.utf8EncodeChar c).take (limit - front.utf8ByteSize) := by
    rw [begins, Text.toUTF8_push, List.append_assoc, List.take_append, Lang.length_toUTF8,
      List.take_of_length_le (by rw [Lang.length_toUTF8]; omega),
      List.take_append_of_le_length (by omega)]
  rw [kept]
  exact Text.decodeLossy_cut front c (by omega) (by omega)

/-! ### Limits between characters -/

theorem soundUpTo_of_text (kept : text.toUTF8.toList = stream.take limit) :
    SoundUpTo stream limit := by
  refine ⟨text, stream.drop limit, ?_, ?_⟩
  · rw [kept, List.take_append_drop]
  · exact Nat.le_of_eq (by rw [← Lang.length_toUTF8, kept, List.length_take])

theorem SoundUpTo.text_or_cut (sound : SoundUpTo stream limit) :
    (∃ text : String, text.toUTF8.toList = stream.take limit) ∨ CutsInside stream limit := by
  obtain ⟨text, rest, begins, within⟩ := sound
  rcases exists_cut text within with
    ⟨front, more, rfl, size⟩ | ⟨front, c, more, rfl, behind, inside⟩
  · refine .inl ⟨front, ?_⟩
    have length : front.toUTF8.toList.length = min limit stream.length := by
      rw [Lang.length_toUTF8, size]
    rw [List.take_eq_take_min, ← length, begins, Lang.toUTF8_append, List.append_assoc,
      List.take_left]
  · have long : (front.push c).utf8ByteSize ≤ stream.length := by
      rw [begins, List.length_append, Lang.length_toUTF8, String.utf8ByteSize_append]
      omega
    exact .inr ⟨front, c, ⟨_, by rw [begins, Lang.toUTF8_append, List.append_assoc]⟩,
      by omega, by omega⟩

theorem lossy_of_cutsInside (cut : CutsInside stream limit) :
    (Text.decodeLossy (stream.take limit)).2 = true := by
  obtain ⟨front, c, cut⟩ := cut
  rw [cut.decodeLossy_take]

/-- The flag is set exactly if something is no text, or the limit falls into a character. -/
theorem lossless_iff : (Text.decodeLossy (stream.take limit)).2 = false ↔
    SoundUpTo stream limit ∧ ¬ CutsInside stream limit := by
  constructor
  · intro lossless
    obtain ⟨text, kept⟩ := (Text.decodeLossy_lossless_iff _).1 lossless
    refine ⟨soundUpTo_of_text kept, fun cut => ?_⟩
    rw [lossy_of_cutsInside cut] at lossless
    cases lossless
  · rintro ⟨sound, between⟩
    exact (Text.decodeLossy_lossless_iff _).2 (sound.text_or_cut.resolve_right between)

/-- What is kept of a text up to a limit between two characters is a text in front of it. -/
theorem exists_append_of_kept {whole : String}
    (kept : text.toUTF8.toList = whole.toUTF8.toList.take limit) :
    ∃ rest, whole = text ++ rest := by
  have within : min limit whole.utf8ByteSize ≤ whole.utf8ByteSize := Nat.min_le_right ..
  refine ((Lang.fromUTF8?_take_eq_some_iff within).1 ?_).2
  rw [← Lang.length_toUTF8, ← List.take_eq_take_min, ← kept]
  exact Lang.fromUTF8?_toUTF8 text

/-! ### What is reported -/

/-- What is reported of an output that is kept up to a limit. -/
structure Tells (limit : Nat) (d : Delivery) (text : String) (truncated lossy : Bool) : Prop where
  /-- The flag is right about the output, unless the limit falls into a character. -/
  right : ¬ CutsInside d.stream limit → (lossy = true ↔ ¬ SoundUpTo d.stream limit)
  /-- If it does, the flag is set although all that was kept belongs to characters. -/
  cut : ∀ front c, CutsAt d.stream limit front c → SoundUpTo d.stream limit ∧
    truncated = true ∧ lossy = true ∧ text = front.push Text.replacement
  kept : lossy = false → text.toUTF8.toList = d.stream.take limit
  /-- An output that is a text is reported up to the limit, unless that falls into a character. -/
  front : ∀ whole : String, d.stream = whole.toUTF8.toList → ¬ CutsInside d.stream limit →
    lossy = false ∧ (∃ rest, whole = text ++ rest) ∧ (truncated = false → text = whole)

theorem soundUpTo_toUTF8 (whole : String) : SoundUpTo whole.toUTF8.toList limit := by
  refine ⟨whole, [], (List.append_nil _).symm, ?_⟩
  rw [Lang.length_toUTF8]
  exact Nat.min_le_right ..

theorem tells_capture (limit : Nat) (d : Delivery) :
    Tells limit d (capture limit d).text.1 (capture limit d).truncated
      (capture limit d).text.2 := by
  have bytes : (capture limit d).text = Text.decodeLossy (d.stream.take limit) := by
    rw [Captured.text, capture_eq]
  have truncated := (capture_regardless_of_chunks limit d).2.1
  have faithful : (Text.decodeLossy (d.stream.take limit)).2 = false →
      (Text.decodeLossy (d.stream.take limit)).1.toUTF8.toList = d.stream.take limit := by
    intro lossless
    obtain ⟨text, kept⟩ := (Text.decodeLossy_lossless_iff _).1 lossless
    rw [← kept, Text.decodeLossy_toUTF8]
  rw [bytes]
  constructor
  case right =>
    intro between
    rw [← Bool.not_eq_false, lossless_iff, and_iff_left between]
  case cut =>
    intro front c cut
    rw [cut.decodeLossy_take]
    exact ⟨cut.soundUpTo, truncated.2 (.inl cut.lt_length), rfl, rfl⟩
  case kept => exact faithful
  case front =>
    intro whole is between
    have lossless := lossless_iff.2 ⟨is ▸ soundUpTo_toUTF8 whole, between⟩
    have kept := faithful lossless
    refine ⟨lossless, exists_append_of_kept (kept.trans (by rw [is])), fun whole' => ?_⟩
    have all : d.stream.length ≤ limit := by
      refine Nat.le_of_not_lt fun more => ?_
      rw [truncated.2 (.inl more)] at whole'
      cases whole'
    refine Lang.toUTF8_injective ?_
    rw [kept, ← is, List.take_of_length_le all]

/-- The outputs of a process are flagged as lossy exactly if something among the bytes kept is no
text, except that a limit that falls into a character sets the flag too. -/
theorem flags_unless_cut (course : Course) (limit duration : Nat) :
    let output := course.output limit duration
    Tells limit course.stdout output.stdout output.stdoutTruncated output.stdoutLossy ∧
      Tells limit course.stderr output.stderr output.stderrTruncated output.stderrLossy :=
  ⟨tells_capture limit course.stdout, tells_capture limit course.stderr⟩

/-! ### A text that is flagged -/

/-- A process that writes a text of two characters, each of two bytes. -/
def accented : Course where
  stdout := ⟨["éé".toUTF8.toList], false⟩
  stderr := ⟨[], false⟩
  lasts? := some 1
  status := .exited 0

/-- With room for three bytes, the output is flagged although it is a text, and the text that is
reported is not in front of it. -/
theorem text_flagged_as_lossy : accented.stdout.stream = "éé".toUTF8.toList ∧
    (accented.output 3 1).stdoutLossy = true ∧
    ¬ ∃ rest, "éé" = (accented.output 3 1).stdout ++ rest := by
  have stream : accented.stdout.stream = "éé".toUTF8.toList := by
    simp [accented, Delivery.stream]
  have cut : CutsAt accented.stdout.stream 3 "é" 'é' :=
    ⟨⟨[], by rw [stream, List.append_nil]; rfl⟩, by decide, by decide⟩
  obtain ⟨-, -, flagged, text⟩ := (tells_capture 3 accented.stdout).cut _ _ cut
  refine ⟨stream, flagged, ?_⟩
  rintro ⟨rest, same⟩
  have characters := congrArg String.toList (same.trans (congrArg (· ++ rest) text))
  rw [String.toList_append, String.toList_push] at characters
  cases characters

end Workbench.Sandbox
