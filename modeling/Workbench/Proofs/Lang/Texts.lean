/-!
# Texts and their bytes

A text is read back from its bytes, and only from those.
-/

namespace Workbench.Lang

theorem toList_loop (b : ByteArray) (i : Nat) (taken : List UInt8) :
    ByteArray.toList.loop b i taken = taken.reverse ++ b.data.toList.drop i := by
  fun_induction ByteArray.toList.loop b i taken with
  | case1 i taken more ih =>
      have bound : i < b.data.toList.length := more
      have byte : b.get! i = b.data.toList[i] := by
        simp only [ByteArray.get!, Array.getElem_toList]
        exact getElem!_pos b.data i more
      rw [ih, List.drop_eq_getElem_cons bound, byte]
      simp
  | case2 i taken done =>
      have past : b.data.toList.length ≤ i := Nat.not_lt.1 done
      rw [List.drop_eq_nil_of_le past, List.append_nil]

theorem toList_eq (b : ByteArray) : b.toList = b.data.toList :=
  toList_loop b 0 []

/-- The bytes of a text are those that it was read from. -/
theorem toUTF8_of_fromUTF8? {content : List UInt8} {text : String}
    (h : String.fromUTF8? ⟨content.toArray⟩ = some text) : text.toUTF8.toList = content := by
  unfold String.fromUTF8? at h
  split at h
  · cases h
    exact toList_eq _
  · cases h

/-- A text is read back from its bytes. -/
theorem fromUTF8?_toUTF8 (text : String) :
    String.fromUTF8? ⟨text.toUTF8.toList.toArray⟩ = some text := by
  have same : (⟨text.toUTF8.toList.toArray⟩ : ByteArray) = text.toByteArray := by
    rw [toList_eq]
    rfl
  rw [same, String.fromUTF8?, dif_pos text.isValidUTF8]
  rfl

theorem length_toUTF8 (text : String) : text.toUTF8.toList.length = text.utf8ByteSize := by
  rw [toList_eq]
  rfl

theorem toUTF8_append (front rest : String) :
    (front ++ rest).toUTF8.toList = front.toUTF8.toList ++ rest.toUTF8.toList := by
  simp only [toList_eq, String.toUTF8_eq_toByteArray, String.toByteArray_append,
    ByteArray.data_append, Array.toList_append]

theorem toUTF8_injective {a b : String} (same : a.toUTF8.toList = b.toUTF8.toList) : a = b := by
  have read := fromUTF8?_toUTF8 a
  rw [same, fromUTF8?_toUTF8] at read
  exact (Option.some.inj read).symm

/-- The first bytes of a text are a text if they end between two of its characters, and none if they
end inside one. -/
theorem fromUTF8?_take_eq_some_iff {text front : String} {n : Nat} (bound : n ≤ text.utf8ByteSize) :
    String.fromUTF8? ⟨(text.toUTF8.toList.take n).toArray⟩ = some front ↔
      front.utf8ByteSize = n ∧ ∃ rest, text = front ++ rest := by
  constructor
  · intro read
    have bytes : front.toUTF8.toList = text.toUTF8.toList.take n := toUTF8_of_fromUTF8? read
    have size : front.utf8ByteSize = n := by
      rw [← length_toUTF8, bytes, List.length_take_of_le (by rwa [length_toUTF8])]
    have valid : String.Pos.Raw.IsValid text ⟨n⟩ := by
      refine String.Pos.Raw.isValid_iff_isValidUTF8_extract_zero.2 ⟨bound, ?_⟩
      have cut : text.toByteArray.extract 0 n = front.toByteArray := by
        refine ByteArray.ext (Array.toList_inj.1 ?_)
        rw [toList_eq, toList_eq] at bytes
        simpa using bytes.symm
      rw [cut]
      exact front.isValidUTF8
    obtain ⟨first, rest, whole, ends⟩ := String.Pos.Raw.isValid_iff_exists_append.1 valid
    have length : first.toUTF8.toList.length = n := by
      rw [length_toUTF8]
      exact (congrArg String.Pos.Raw.byteIdx ends).symm
    have same : first = front := by
      refine toUTF8_injective ?_
      rw [bytes, whole, toUTF8_append, List.take_left' length]
    exact ⟨size, rest, by rw [whole, same]⟩
  · rintro ⟨size, rest, rfl⟩
    rw [toUTF8_append, List.take_left' (by rw [length_toUTF8, size]), fromUTF8?_toUTF8]

end Workbench.Lang
