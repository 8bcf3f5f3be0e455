import VisualRules.Proofs.Bytes.RoundTrip
import VisualRules.Text.Truncated

/-!
# Where a text may be cut

Only the first byte of a character starts one, so inside a character no cut is allowed
and the search for a cut ends at the character's own start, which is at most three bytes
back. What is left in front of the cut are whole characters, as many as fit.
-/

namespace VisualRules

open Text (boundaryFrom? isBoundary startsChar truncated)

namespace Bytes

/-! ## The bytes of a character -/

theorem startsChar_ofNat {n : Nat} (h : n < 256) :
    startsChar (UInt8.ofNat n) = decide (n < 128 ∨ 192 ≤ n) := by
  have hbyte := toNat_ofNat_of_lt h
  have hlow : UInt8.ofNat n < 0x80 ↔ n < 128 := by
    rw [UInt8.lt_iff_toNat_lt, hbyte]
    rfl
  have hhigh : 0xC0 ≤ UInt8.ofNat n ↔ 192 ≤ n := by
    rw [UInt8.le_iff_toNat_le, hbyte]
    rfl
  simp only [startsChar, hlow, hhigh, Bool.decide_or]

/-- The first byte of a character starts it, and no other one starts a character. -/
theorem exists_utf8EncodeChar (c : Char) :
    ∃ b bs, String.utf8EncodeChar c = b :: bs ∧ startsChar b = true ∧
      ∀ b' ∈ bs, startsChar b' = false := by
  have hvalid : c.toNat < 0x110000 := by
    rcases c.valid with h | h
    · exact Nat.lt_of_lt_of_le h (by decide)
    · exact h.2
  have hval : c.val.toNat = c.toNat := rfl
  -- A byte that goes on with a character has two leading bits of its own.
  have hnext (n : Nat) : startsChar (UInt8.ofNat (n % 64 + 128)) = false := by
    rw [startsChar_ofNat (by omega), decide_eq_false_iff_not]
    omega
  simp only [String.utf8EncodeChar, hval]
  generalize c.toNat = n at *
  split
  · refine ⟨_, [], rfl, ?_, by simp⟩
    rw [startsChar_ofNat (by omega), decide_eq_true_iff]
    omega
  split
  · refine ⟨_, _, rfl, ?_, by simp [hnext, -UInt8.ofNat_add]⟩
    rw [startsChar_ofNat (by omega), decide_eq_true_iff]
    omega
  split
  · refine ⟨_, _, rfl, ?_, by simp [hnext, -UInt8.ofNat_add]⟩
    rw [startsChar_ofNat (by omega), decide_eq_true_iff]
    omega
  · refine ⟨_, _, rfl, ?_, by simp [hnext, -UInt8.ofNat_add]⟩
    rw [startsChar_ofNat (by omega), decide_eq_true_iff]
    omega

theorem length_ofText (s : String) : (ofText s).length = s.utf8ByteSize := by
  have hbytes : s.toByteArray = s.toList.utf8Encode := by
    rw [← String.toByteArray_ofList, String.ofList_toList]
  rw [← String.size_toByteArray, hbytes, List.utf8Encode, List.size_toByteArray]
  rfl

theorem toText_ofText (s : String) : toText (ofText s) = s := by
  rw [toText, toChars, decode_ofText, List.map_map]
  show String.ofList (s.toList.map id) = s
  rw [List.map_id, String.ofList_toList]

/-! ## The character at a byte -/

/-- Each byte of a text belongs to a character. -/
theorem exists_char_at {cs : List Char} {n : Nat}
    (h : n < (cs.flatMap String.utf8EncodeChar).length) :
    ∃ front c back, cs = front ++ c :: back ∧
      (front.flatMap String.utf8EncodeChar).length ≤ n ∧
      n < (front.flatMap String.utf8EncodeChar).length + (String.utf8EncodeChar c).length := by
  induction cs generalizing n with
  | nil => simp at h
  | cons d cs ih =>
    by_cases hd : n < (String.utf8EncodeChar d).length
    · exact ⟨[], d, cs, rfl, by simp, by simpa using hd⟩
    · have hrest : n - (String.utf8EncodeChar d).length <
          (cs.flatMap String.utf8EncodeChar).length := by
        rw [List.flatMap_cons, List.length_append] at h
        omega
      obtain ⟨front, c, back, rfl, hle, hlt⟩ := ih hrest
      refine ⟨d :: front, c, back, rfl, ?_, ?_⟩
      · rw [List.flatMap_cons, List.length_append]
        omega
      · rw [List.flatMap_cons, List.length_append]
        omega

/-- A front without the whole of a character ends in front of it. -/
theorem length_front_le {front back front' back' : List Char} {c : Char}
    (h : front' ++ back' = front ++ c :: back)
    (hlt : (front'.flatMap String.utf8EncodeChar).length <
      (front.flatMap String.utf8EncodeChar).length + (String.utf8EncodeChar c).length) :
    (front'.flatMap String.utf8EncodeChar).length ≤
      (front.flatMap String.utf8EncodeChar).length := by
  rcases List.append_eq_append_iff.mp h with ⟨more, rfl, -⟩ | ⟨more, rfl, hback⟩
  · rw [List.flatMap_append, List.length_append]
    omega
  · cases more with
    | nil => simp
    | cons d more =>
      obtain ⟨rfl, -⟩ := List.cons.inj hback
      simp only [List.flatMap_append, List.flatMap_cons, List.length_append] at hlt
      omega

variable {before after : Bytes} {c : Char}

theorem isBoundary_start :
    isBoundary (before ++ (String.utf8EncodeChar c ++ after)) before.length = true := by
  obtain ⟨b, bs, hbytes, hstart, -⟩ := exists_utf8EncodeChar c
  simp [isBoundary, hbytes, hstart]

theorem isBoundary_inside {n : Nat} (hn : n + 1 < (String.utf8EncodeChar c).length) :
    isBoundary (before ++ (String.utf8EncodeChar c ++ after)) (before.length + (n + 1)) =
      false := by
  obtain ⟨b, bs, hbytes, -, hnext⟩ := exists_utf8EncodeChar c
  rw [hbytes, List.length_cons] at hn
  have hlt : n < bs.length := by omega
  have hbyte : (before ++ (b :: bs ++ after))[before.length + (n + 1)]? = some bs[n] := by
    rw [List.getElem?_append_right (by omega), Nat.add_sub_cancel_left, List.cons_append,
      List.getElem?_cons_succ, List.getElem?_append_left hlt, List.getElem?_eq_getElem hlt]
  have hne : before.length + (n + 1) ≠ 0 := by omega
  rw [hbytes, isBoundary, hbyte]
  simp [hnext _ (List.getElem_mem hlt)]

/-- **The search ends at the start of the character**, wherever inside it begins. -/
theorem boundaryFrom?_inside {n : Nat} (hn : n < (String.utf8EncodeChar c).length) :
    boundaryFrom? (before ++ (String.utf8EncodeChar c ++ after)) (before.length + n) =
      some before.length := by
  induction n with
  | zero =>
    rw [Nat.add_zero]
    have hstart : isBoundary (before ++ (String.utf8EncodeChar c ++ after)) before.length = true :=
      isBoundary_start
    cases hlength : before.length with
    | zero => simp [boundaryFrom?, isBoundary]
    | succ k =>
      rw [hlength] at hstart
      rw [boundaryFrom?, if_pos hstart]
  | succ n ih =>
    rw [← Nat.add_assoc, boundaryFrom?, Nat.add_assoc, isBoundary_inside hn]
    exact ih (by omega)

end Bytes

/-! ## The text in front of the cut -/

/-- How a text is shortened: to the longest front of whole characters that fits. -/
structure Text.Shortened (limit : Nat) (s front : String) : Prop where
  isFront : ∃ back, s = front ++ back
  fits : front.utf8ByteSize ≤ limit
  longest : ∀ front' back', s = front' ++ back' → front'.utf8ByteSize ≤ limit →
    front'.utf8ByteSize ≤ front.utf8ByteSize
  /-- Not more than three bytes that would have been allowed are given up. -/
  lost : limit ≤ front.utf8ByteSize + 3

theorem Text.exists_shortened {limit : Nat} {s : String} (h : limit < s.utf8ByteSize) :
    ∃ front, Text.Shortened limit s front ∧
      boundaryFrom? (Bytes.ofText s) limit = some front.utf8ByteSize ∧
      truncated limit s = front ++ "..." := by
  have hlimit : limit < (s.toList.flatMap String.utf8EncodeChar).length := by
    rwa [← Bytes.ofText, Bytes.length_ofText]
  obtain ⟨front, c, back, hs, hle, hlt⟩ := Bytes.exists_char_at hlimit
  have hfront : (front.flatMap String.utf8EncodeChar).length =
      (String.ofList front).utf8ByteSize := by
    rw [← Bytes.length_ofText, Bytes.ofText, String.toList_ofList]
  have hbytes : Bytes.ofText s = front.flatMap String.utf8EncodeChar ++
      (String.utf8EncodeChar c ++ back.flatMap String.utf8EncodeChar) := by
    rw [Bytes.ofText, hs, List.flatMap_append, List.flatMap_cons]
  have hsearch : boundaryFrom? (Bytes.ofText s) limit =
      some (front.flatMap String.utf8EncodeChar).length := by
    obtain ⟨n, rfl⟩ := Nat.exists_eq_add_of_le hle
    rw [hbytes]
    exact Bytes.boundaryFrom?_inside (by omega)
  refine ⟨String.ofList front, ⟨⟨String.ofList (c :: back), ?_⟩, ?_, ?_, ?_⟩, ?_, ?_⟩
  · rw [← String.ofList_append, ← hs, String.ofList_toList]
  · omega
  · intro front' back' hsplit hfits
    have hlists : front'.toList ++ back'.toList = front ++ c :: back := by
      rw [← hs, hsplit, String.toList_append]
    have hfront' : front'.utf8ByteSize = (front'.toList.flatMap String.utf8EncodeChar).length := by
      rw [← Bytes.length_ofText, Bytes.ofText]
    rw [← hfront, hfront']
    exact Bytes.length_front_le hlists (by omega)
  · have hsize := Char.utf8Size_le_four c
    rw [← String.length_utf8EncodeChar] at hsize
    omega
  · rw [hsearch, hfront]
  · have htake : (Bytes.ofText s).take (front.flatMap String.utf8EncodeChar).length =
        Bytes.ofText (String.ofList front) := by
      rw [hbytes, List.take_left, Bytes.ofText, String.toList_ofList]
    rw [truncated, if_neg (by omega)]
    simp only [hsearch, Option.getD_some, htake, Bytes.toText_ofText]

end VisualRules
