import CommandBatch.Files.Utf8

/-!
# Texts as bytes and back

Decoding gives back the text whose encoding it is given.  A character is encoded in one to four bytes, the
first of which tells how many follow and within which bounds the second lies.  The bounds are there to refuse
encodings that are longer than need be and numbers that are no characters, so the encoding of a character lies
within them; each byte then adds its six bits, until the number of the character is complete.
-/

namespace CommandBatch.Files

section Character

variable {position v : Nat} {bs : List UInt8}

/-! ## One byte -/

theorem toNat_ofNat {n : Nat} (h : n < 256) : (UInt8.ofNat n).toNat = n := by simpa using h

theorem decodeFrom_lead {b : UInt8} {bits least greatest missing : Nat}
    (h : leadByte? b.toNat = some (bits, least, greatest, missing + 1)) :
    decodeFrom position none (b :: bs) =
      decodeFrom (position + 1) (some ⟨b, position, 1, bits, least, greatest, missing + 1⟩) bs := by
  rw [decodeFrom, h]
  rfl

section Tail

variable {b : UInt8} {start length bits least greatest n : Nat} (hleast : least ≤ n % 64 + 128)
  (hgreatest : n % 64 + 128 ≤ greatest)
include hleast hgreatest

/-- A byte behind the first gives six bits, and the last completes the number of the character. -/
theorem decodeFrom_last :
    decodeFrom position (some ⟨b, start, length, bits, least, greatest, 1⟩) (UInt8.ofNat (n % 64 + 128) :: bs) =
      (decodeFrom (position + 1) none bs).map (Char.ofNat (bits * 64 + n % 64) :: ·) := by
  have hbyte : (UInt8.ofNat (n % 64 + 128)).toNat = n % 64 + 128 := toNat_ofNat (by omega)
  rw [decodeFrom, hbyte, if_pos ⟨hleast, hgreatest⟩, if_pos (Nat.le_refl 1),
    show (n % 64 + 128) % 64 = n % 64 by omega]
  rfl

theorem decodeFrom_next (missing : Nat) :
    decodeFrom position (some ⟨b, start, length, bits, least, greatest, missing + 2⟩)
        (UInt8.ofNat (n % 64 + 128) :: bs) =
      decodeFrom (position + 1)
        (some ⟨b, start, length + 1, bits * 64 + n % 64, 0x80, 0xBF, missing + 1⟩) bs := by
  have hbyte : (UInt8.ofNat (n % 64 + 128)).toNat = n % 64 + 128 := toNat_ofNat (by omega)
  rw [decodeFrom, hbyte, if_pos ⟨hleast, hgreatest⟩, if_neg (by simp),
    show (n % 64 + 128) % 64 = n % 64 by omega]
  rfl

end Tail

/-! ## One character -/

theorem decodeFrom_one (h : v < 0x80) :
    decodeFrom position none (UInt8.ofNat v :: bs) =
      (decodeFrom (position + 1) none bs).map (Char.ofNat v :: ·) := by
  rw [decodeFrom, toNat_ofNat (by omega), leadByte?, if_pos h]
  rfl

theorem decodeFrom_two (hleast : 0x80 ≤ v) (hgreatest : v < 0x800) :
    decodeFrom position none (UInt8.ofNat (v / 64 % 32 + 192) :: UInt8.ofNat (v % 64 + 128) :: bs) =
      (decodeFrom (position + 2) none bs).map (Char.ofNat v :: ·) := by
  have hlead : leadByte? (UInt8.ofNat (v / 64 % 32 + 192)).toNat = some (v / 64, 0x80, 0xBF, 0 + 1) := by
    rw [toNat_ofNat (by omega), leadByte?, if_neg (by omega), if_pos (by omega),
      show v / 64 % 32 + 192 - 0xC0 = v / 64 by omega]
  rw [decodeFrom_lead hlead, decodeFrom_last (by omega) (by omega), show v / 64 * 64 + v % 64 = v by omega]

/-- The bounds of the second byte exclude the numbers below and the surrogates. -/
theorem decodeFrom_three (hleast : 0x800 ≤ v) (hgreatest : v < 0x10000) (hvalid : v < 0xD800 ∨ 0xDFFF < v) :
    decodeFrom position none (UInt8.ofNat (v / 4096 % 16 + 224) :: UInt8.ofNat (v / 64 % 64 + 128) ::
        UInt8.ofNat (v % 64 + 128) :: bs) =
      (decodeFrom (position + 3) none bs).map (Char.ofNat v :: ·) := by
  have hlead : leadByte? (UInt8.ofNat (v / 4096 % 16 + 224)).toNat =
      some (v / 4096, if v / 4096 % 16 + 224 = 0xE0 then 0xA0 else 0x80,
        if v / 4096 % 16 + 224 = 0xED then 0x9F else 0xBF, 0 + 2) := by
    rw [toNat_ofNat (by omega), leadByte?, if_neg (by omega), if_neg (by omega), if_pos (by omega),
      show v / 4096 % 16 + 224 - 0xE0 = v / 4096 by omega]
  rw [decodeFrom_lead hlead, decodeFrom_next (by split <;> omega) (by split <;> omega),
    decodeFrom_last (by omega) (by omega), show (v / 4096 * 64 + v / 64 % 64) * 64 + v % 64 = v by omega]

/-- The bounds of the second byte exclude the numbers below and those beyond the last character. -/
theorem decodeFrom_four (hleast : 0x10000 ≤ v) (hgreatest : v < 0x110000) :
    decodeFrom position none (UInt8.ofNat (v / 262144 % 8 + 240) :: UInt8.ofNat (v / 4096 % 64 + 128) ::
        UInt8.ofNat (v / 64 % 64 + 128) :: UInt8.ofNat (v % 64 + 128) :: bs) =
      (decodeFrom (position + 4) none bs).map (Char.ofNat v :: ·) := by
  have hlead : leadByte? (UInt8.ofNat (v / 262144 % 8 + 240)).toNat =
      some (v / 262144, if v / 262144 % 8 + 240 = 0xF0 then 0x90 else 0x80,
        if v / 262144 % 8 + 240 = 0xF4 then 0x8F else 0xBF, 1 + 2) := by
    rw [toNat_ofNat (by omega), leadByte?, if_neg (by omega), if_neg (by omega), if_neg (by omega),
      if_pos (by omega), show v / 262144 % 8 + 240 - 0xF0 = v / 262144 by omega]
  rw [decodeFrom_lead hlead, decodeFrom_next (by split <;> omega) (by split <;> omega),
    decodeFrom_next (by omega) (by omega), decodeFrom_last (by omega) (by omega),
    show ((v / 262144 * 64 + v / 4096 % 64) * 64 + v / 64 % 64) * 64 + v % 64 = v by omega]

/-- The encoding of a character is decoded to it, whatever follows. -/
theorem decodeFrom_char (position : Nat) (c : Char) (bs : List UInt8) :
    ∃ position', decodeFrom position none (String.utf8EncodeChar c ++ bs) =
      (decodeFrom position' none bs).map (c :: ·) := by
  have hvalid : c.val.toNat < 0xD800 ∨ 0xDFFF < c.val.toNat ∧ c.val.toNat < 0x110000 := c.valid
  have hchar : Char.ofNat c.val.toNat = c := Char.ofNat_toNat c
  unfold String.utf8EncodeChar
  generalize c.val.toNat = v at hvalid hchar
  subst hchar
  dsimp only
  split
  · exact ⟨_, decodeFrom_one (by omega)⟩
  split
  · exact ⟨_, decodeFrom_two (by omega) (by omega)⟩
  split
  · exact ⟨_, decodeFrom_three (by omega) (by omega) (by omega)⟩
  · exact ⟨_, decodeFrom_four (by omega) (by omega)⟩

end Character

/-- **A text is read back from its encoding.** -/
theorem decodeUtf8_toUTF8 (s : String) : decodeUtf8 s.toUTF8.data.toList = .ok s := by
  have hdecode (position : Nat) (cs : List Char) :
      decodeFrom position none (cs.flatMap String.utf8EncodeChar) = .ok cs := by
    induction cs generalizing position with
    | nil => rfl
    | cons c cs ih =>
      obtain ⟨position', hchar⟩ := decodeFrom_char position c (cs.flatMap String.utf8EncodeChar)
      rw [List.flatMap_cons, hchar, ih]
      rfl
  have hbytes : s.toUTF8.data.toList = s.toList.flatMap String.utf8EncodeChar := by
    rw [String.toUTF8, ← String.ofList_toList (s := s), String.toByteArray_ofList, List.utf8Encode,
      List.toList_data_toByteArray, String.toList_ofList]
  rw [hbytes, decodeUtf8, hdecode]
  exact congrArg Except.ok String.ofList_toList

end CommandBatch.Files
