import Mathlib.Tactic.SplitIfs
import VisualRules.Bytes.Utf8

/-!
# Text in bytes

The bytes of a text are read back as its characters. A character is one to four bytes;
the first one tells how many follow and bounds the second one, so that no number is
written in more bytes than it needs and none of those that are no characters is read.
-/

namespace VisualRules.Bytes

/-! ## Bytes of a character -/

theorem toNat_ofNat_of_lt {n : Nat} (h : n < 256) : (UInt8.ofNat n).toNat = n := by
  rw [UInt8.toNat_ofNat']
  omega

theorem decode_lead {b : UInt8} {missing bits low high : Nat}
    (h : leading? b = some (missing, bits, low, high)) (bs : Bytes) :
    decode none (b :: bs) = decode (some ⟨missing, bits, low, high⟩) bs := by
  have hascii : ¬ b < 0x80 := by
    intro hb
    have hlt : b.toNat < 128 := hb
    simp only [leading?] at h
    split_ifs at h <;> simp_all <;> omega
  have hstart : start? b = some (.inr ⟨missing, bits, low, high⟩) := by
    rw [start?, if_neg hascii, h]
    rfl
  rw [decode, hstart]

section Tail

variable {missing bits low high n : Nat} (hlow : low ≤ n % 64 + 128) (hhigh : n % 64 + 128 ≤ high)
  (bs : Bytes)

include hlow hhigh

/-- A byte that continues a character adds six bits. -/
theorem decode_tail : decode (some ⟨missing + 2, bits, low, high⟩)
      (UInt8.ofNat (n % 64 + 128) :: bs) =
    decode (some ⟨missing + 1, bits * 64 + n % 64, 0x80, 0xBF⟩) bs := by
  have hbyte : (UInt8.ofNat (n % 64 + 128)).toNat = n % 64 + 128 :=
    toNat_ofNat_of_lt (by omega)
  have hmore : missing + 2 ≠ 1 := by omega
  simp only [decode, hbyte, hlow, hhigh, decide_true, Bool.and_true, if_true, if_neg hmore,
    Nat.add_sub_cancel]
  rfl

/-- The last byte of a character completes it. -/
theorem decode_last : decode (some ⟨1, bits, low, high⟩) (UInt8.ofNat (n % 64 + 128) :: bs) =
    some (Char.ofNat (bits * 64 + n % 64)) :: decode none bs := by
  have hbyte : (UInt8.ofNat (n % 64 + 128)).toNat = n % 64 + 128 :=
    toNat_ofNat_of_lt (by omega)
  simp only [decode, hbyte, hlow, hhigh, decide_true, Bool.and_true, if_true, Nat.add_sub_cancel]

end Tail

/-! ### The first byte -/

theorem leading?_two : ∀ k < 32, leading? (UInt8.ofNat (k % 32 + 192)) =
    if 2 ≤ k then some (1, k, 0x80, 0xBF) else none := by
  decide

/-- The second byte of a character of three bytes is bounded by the first one. -/
theorem leading?_three : ∀ k < 16, leading? (UInt8.ofNat (k % 16 + 224)) =
    some (2, k, if k = 0 then 0xA0 else 0x80, if k = 13 then 0x9F else 0xBF) := by
  decide

/-- The second byte of a character of four bytes is bounded by the first one. -/
theorem leading?_four : ∀ k < 5, leading? (UInt8.ofNat (k % 8 + 240)) =
    some (3, k, if k = 0 then 0x90 else 0x80, if k = 4 then 0x8F else 0xBF) := by
  decide

/-! ## Whole texts -/

/-- **Each character is read back**, whatever follows its bytes. -/
theorem decode_utf8EncodeChar_append (c : Char) (bs : Bytes) :
    decode none (String.utf8EncodeChar c ++ bs) = some c :: decode none bs := by
  have hback : Char.ofNat c.toNat = c := Char.ofNat_toNat c
  have hvalid : c.toNat < 0xD800 ∨ 0xDFFF < c.toNat ∧ c.toNat < 0x110000 := c.valid
  have hval : c.val.toNat = c.toNat := rfl
  simp only [String.utf8EncodeChar, hval]
  generalize c.toNat = n at *
  split
  · rename_i hone
    have hbyte : (UInt8.ofNat n).toNat = n := toNat_ofNat_of_lt (by omega)
    have hascii : UInt8.ofNat n < 0x80 := by
      rw [UInt8.lt_iff_toNat_lt, hbyte]
      exact Nat.lt_succ_of_le hone
    rw [List.cons_append, List.nil_append, decode, start?, if_pos hascii, hbyte, hback]
  split
  · rename_i htwo
    have hbits : n / 64 * 64 + n % 64 = n := by omega
    simp only [List.cons_append, List.nil_append]
    rw [decode_lead ((leading?_two (n / 64) (by omega)).trans (if_pos (by omega))),
      decode_last (by omega) (by omega), hbits, hback]
  split
  · rename_i hthree
    have hbits : (n / 4096 * 64 + n / 64 % 64) * 64 + n % 64 = n := by omega
    -- The bounds of the second byte leave out what fewer bytes write and the surrogates.
    simp only [List.cons_append, List.nil_append]
    rw [decode_lead (leading?_three (n / 4096) (by omega)),
      decode_tail (by split <;> omega) (by split <;> omega), decode_last (by omega) (by omega),
      hbits, hback]
  · have hbits : ((n / 262144 * 64 + n / 4096 % 64) * 64 + n / 64 % 64) * 64 + n % 64 = n := by
      omega
    simp only [List.cons_append, List.nil_append]
    rw [decode_lead (leading?_four (n / 262144) (by omega)),
      decode_tail (by split <;> omega) (by split <;> omega), decode_tail (by omega) (by omega),
      decode_last (by omega) (by omega), hbits, hback]

theorem decode_ofText (s : String) : decode none (ofText s) = s.toList.map some := by
  rw [ofText]
  induction s.toList with
  | nil => rfl
  | cons c cs ih => rw [List.flatMap_cons, decode_utf8EncodeChar_append, ih, List.map_cons]

theorem length_ofText_le (text : String) :
    (ofText text).length ≤ 4 * text.toList.length := by
  rw [ofText]
  induction text.toList with
  | nil => simp
  | cons c cs ih =>
    have hchar : (String.utf8EncodeChar c).length ≤ 4 := by
      rw [String.length_utf8EncodeChar]
      exact Char.utf8Size_le_four c
    rw [List.flatMap_cons, List.length_append, List.length_cons]
    omega

end VisualRules.Bytes
