import Workbench.Seal.Basic
import Workbench.Proofs.Lang.Texts

/-!
# Payloads are read back

What is read from the payload of a scheme is the seal that it computed and the name that it has, as
far as there is room for it. The room is counted in bytes, so a long name can be cut inside a
character, and then its payload is not read at all.
-/

namespace Workbench.Seal

open Wasm (Bytes)

/-! ### Reading a payload -/

/-- A payload is read up to the question whether what it has of the name is a text. -/
theorem ofPayload?_payload (name sealBytes : Bytes) :
    ofPayload? (payload name sealBytes) =
      (String.fromUTF8? ⟨(name.take maxName).toArray⟩).map fun front => (front, sealBytes) := by
  have short : (name.take maxName).length ≤ maxName := List.length_take_le maxName name
  have oneByte : (name.take maxName).length.toUInt8.toNat = (name.take maxName).length := by
    simp only [Nat.toUInt8_eq, UInt8.toNat_ofNat']
    exact Nat.mod_eq_of_lt (Nat.lt_of_le_of_lt short (by decide))
  have enough : ¬(name.take maxName ++ sealBytes).length < (name.take maxName).length := by
    rw [List.length_append]
    omega
  rw [payload, ofPayload?, oneByte, if_neg enough, List.take_left, List.drop_left]

/-- Whatever a payload was read as makes the payload again. -/
theorem payload_of_ofPayload? {bytes sealBytes : Bytes} {name : String}
    (reads : ofPayload? bytes = some (name, sealBytes)) :
    payload name.toUTF8.toList sealBytes = bytes := by
  cases bytes with
  | nil => contradiction
  | cons length rest =>
      rw [ofPayload?] at reads
      split at reads
      · contradiction
      · obtain ⟨front, text, same⟩ := Option.map_eq_some_iff.1 reads
        obtain ⟨rfl, rfl⟩ := Prod.mk.inj same
        have whole : length.toNat ≤ rest.length := Nat.le_of_not_lt ‹_›
        -- one byte holds no length that would be cut
        have short : length.toNat ≤ maxName := Nat.le_of_lt_succ length.toNat_lt
        rw [Lang.toUTF8_of_fromUTF8? text, payload, List.take_take, Nat.min_eq_right short,
          List.length_take_of_le whole, List.take_append_drop, Nat.toUInt8_eq, UInt8.ofNat_toNat]

/-! ### The payloads of a scheme -/

namespace Scheme

/-- What is read from the payload of a scheme is its seal, with as many bytes of its name as there
is room for. -/
theorem ofPayload?_payload_eq_some_iff (scheme : Scheme) (module : Bytes) {name : String}
    {sealBytes : Bytes} :
    ofPayload? (scheme.payload module) = some (name, sealBytes) ↔
      sealBytes = scheme.sealOf module ∧
        name.utf8ByteSize = min maxName scheme.name.utf8ByteSize ∧
          ∃ rest, scheme.name = name ++ rest := by
  have cut : scheme.name.toUTF8.toList.take maxName =
      scheme.name.toUTF8.toList.take (min maxName scheme.name.utf8ByteSize) := by
    rw [← Lang.length_toUTF8, ← List.take_eq_take_min]
  rw [payload, ofPayload?_payload, Option.map_eq_some_iff, cut]
  constructor
  · rintro ⟨front, text, same⟩
    obtain ⟨rfl, rfl⟩ := Prod.mk.inj same
    exact ⟨rfl, (Lang.fromUTF8?_take_eq_some_iff (Nat.min_le_right ..)).1 text⟩
  · rintro ⟨rfl, front⟩
    exact ⟨name, (Lang.fromUTF8?_take_eq_some_iff (Nat.min_le_right ..)).2 front, rfl⟩

/-- The payload of a scheme is read exactly if its name is not cut inside a character. -/
theorem isSome_ofPayload?_payload_iff (scheme : Scheme) (module : Bytes) :
    (ofPayload? (scheme.payload module)).isSome ↔
      String.Pos.Raw.IsValid scheme.name ⟨min maxName scheme.name.utf8ByteSize⟩ := by
  rw [Option.isSome_iff_exists, String.Pos.Raw.isValid_iff_exists_append]
  constructor
  · rintro ⟨⟨front, sealBytes⟩, reads⟩
    obtain ⟨-, size, rest, whole⟩ := (scheme.ofPayload?_payload_eq_some_iff module).1 reads
    exact ⟨front, rest, whole, String.Pos.Raw.ext size.symm⟩
  · rintro ⟨front, rest, whole, ends⟩
    have size := congrArg String.Pos.Raw.byteIdx ends
    exact ⟨(front, scheme.sealOf module),
      (scheme.ofPayload?_payload_eq_some_iff module).2 ⟨rfl, size.symm, rest, whole⟩⟩

/-- The payload of a scheme is read as the seal that the scheme computed and its name, or the front
of a name that is too long; only a name that is cut inside a character makes it unreadable. A
payload that is read as the name and the seal of a scheme is the payload of that scheme. -/
theorem payload_read_back (scheme : Scheme) (module : Bytes) :
    (scheme.name.utf8ByteSize ≤ maxName →
      ofPayload? (scheme.payload module) = some (scheme.name, scheme.sealOf module)) ∧
    ((ofPayload? (scheme.payload module)).isSome ↔
      String.Pos.Raw.IsValid scheme.name ⟨min maxName scheme.name.utf8ByteSize⟩) ∧
    (∀ name sealBytes, ofPayload? (scheme.payload module) = some (name, sealBytes) →
      sealBytes = scheme.sealOf module ∧
        name.utf8ByteSize = min maxName scheme.name.utf8ByteSize ∧
          ∃ rest, scheme.name = name ++ rest) ∧
    (∀ bytes, ofPayload? bytes = some (scheme.name, scheme.sealOf module) →
      scheme.payload module = bytes) := by
  refine ⟨fun short => ?whole, scheme.isSome_ofPayload?_payload_iff module,
    fun name sealBytes => (scheme.ofPayload?_payload_eq_some_iff module).1,
    fun bytes reads => payload_of_ofPayload? reads⟩
  case whole =>
    refine (scheme.ofPayload?_payload_eq_some_iff module).2 ⟨rfl, ?_, "", ?_⟩
    · exact (Nat.min_eq_right short).symm
    · exact String.append_empty.symm

/-- A scheme with a short name is read back, and what is read as its name and seal is its payload.
-/
theorem payload_read_back_short :
    let scheme : Scheme := { name := "a", sealOf := fun _ => [7], effects := [] }
    ofPayload? (scheme.payload []) = some ("a", [7]) ∧ scheme.payload [] = [1, 97, 7] := by
  intro scheme
  obtain ⟨whole, -, -, again⟩ := payload_read_back scheme []
  exact ⟨whole (by decide), again [1, 97, 7] (by decide +kernel)⟩

/-- A scheme with a name of one byte too many that ends in a character of two bytes. -/
def longNamed : Scheme where
  name := String.ofList (List.replicate 254 'a' ++ ['é'])
  sealOf _ := [1]
  effects := []

theorem longNamed_unreadable : ofPayload? (longNamed.payload []) = none := by
  have room : min maxName longNamed.name.utf8ByteSize = 255 := by decide +kernel
  have inside : ¬String.Pos.Raw.IsValid longNamed.name ⟨255⟩ := by decide +kernel
  rw [← Option.not_isSome_iff_eq_none, isSome_ofPayload?_payload_iff, room]
  exact inside

end Scheme

end Workbench.Seal
