import Mathlib

/-! # The bytes of a text

A text is encoded character by character. An ASCII character is a byte of its own, and that byte does
not occur in the encoding of any other character.

* **`encode cs`** — the bytes of a text, in order.
* **`toList_toUTF8`** — they are the bytes of the string.
* **`mem_utf8EncodeChar_iff`** — where the byte of an ASCII character occurs. -/

namespace StyleAudit.Text

/-- The bytes of a text. -/
def encode (cs : List Char) : List UInt8 := cs.flatMap String.utf8EncodeChar

@[simp] theorem encode_nil : encode [] = [] := rfl

@[simp] theorem encode_cons (c : Char) (cs : List Char) :
    encode (c :: cs) = String.utf8EncodeChar c ++ encode cs := List.flatMap_cons

@[simp] theorem encode_append (cs ds : List Char) : encode (cs ++ ds) = encode cs ++ encode ds :=
  List.flatMap_append

/-- What the loop over a byte array has collected. -/
theorem toList_loop_eq (bs : ByteArray) (i : Nat) (r : List UInt8) :
    ByteArray.toList.loop bs i r = r.reverse ++ bs.data.toList.drop i := by
  fun_induction ByteArray.toList.loop bs i r with
  | case1 i r hlt ih =>
      have hlength : i < bs.data.toList.length := by simpa using hlt
      rw [ih, List.drop_eq_getElem_cons hlength]
      simp [ByteArray.get!, hlt]
  | case2 i r hge =>
      have hlength : bs.data.toList.length ≤ i := by simpa using hge
      simp [List.drop_eq_nil_of_le hlength]

/-- **The bytes of a string** are those of its characters. -/
theorem toList_toUTF8 (s : String) : s.toUTF8.toList = encode s.toList := by
  have hbytes : s.toUTF8 = (encode s.toList).toByteArray := by
    rw [encode, ← List.utf8Encode, ← String.toByteArray_ofList, String.ofList_toList]
    rfl
  rw [hbytes, ByteArray.toList, toList_loop_eq]
  simp

/-! ## ASCII -/

/-- An encoding of more than one byte has no ASCII byte. -/
theorem le_of_mem_utf8EncodeChar {c : Char} {b : UInt8} (hc : 127 < c.toNat)
    (h : b ∈ String.utf8EncodeChar c) : 128 ≤ b.toNat := by
  -- the bytes are numbers between 128 and 255
  have hbyte : ∃ k, b = UInt8.ofNat k ∧ 128 ≤ k ∧ k < 256 := by
    have hlarge : ¬c.val.toNat ≤ 127 := Nat.not_le.2 hc
    simp only [String.utf8EncodeChar, if_neg hlarge] at h
    split at h
    · simp only [List.mem_cons, List.not_mem_nil, or_false] at h
      rcases h with h | h <;> exact ⟨_, h, by omega, by omega⟩
    · split at h
      · simp only [List.mem_cons, List.not_mem_nil, or_false] at h
        rcases h with h | h | h <;> exact ⟨_, h, by omega, by omega⟩
      · simp only [List.mem_cons, List.not_mem_nil, or_false] at h
        rcases h with h | h | h | h <;> exact ⟨_, h, by omega, by omega⟩
  obtain ⟨k, rfl, hle, hlt⟩ := hbyte
  rwa [UInt8.toNat_ofNat_of_lt' hlt]

/-- An ASCII character is one byte. -/
theorem utf8EncodeChar_of_le {c : Char} (hc : c.toNat ≤ 127) :
    String.utf8EncodeChar c = [UInt8.ofNat c.toNat] := if_pos hc

/-- **The byte of an ASCII character** occurs in its own encoding only. -/
theorem mem_utf8EncodeChar_iff {a c : Char} (ha : a.toNat ≤ 127) :
    UInt8.ofNat a.toNat ∈ String.utf8EncodeChar c ↔ c = a := by
  constructor
  · intro h
    by_cases hc : c.toNat ≤ 127
    · rw [utf8EncodeChar_of_le hc, List.mem_singleton, ← UInt8.toNat_inj,
        UInt8.toNat_ofNat_of_lt' (by show _ < 256; omega),
        UInt8.toNat_ofNat_of_lt' (by show _ < 256; omega)] at h
      exact (Char.toNat_inj.1 h).symm
    · have hle := le_of_mem_utf8EncodeChar (by omega) h
      rw [UInt8.toNat_ofNat_of_lt' (by show _ < 256; omega)] at hle
      omega
  · rintro rfl
    rw [utf8EncodeChar_of_le ha]
    exact List.mem_singleton_self _

end StyleAudit.Text
