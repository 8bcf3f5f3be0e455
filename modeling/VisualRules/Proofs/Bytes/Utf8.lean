import Mathlib.Tactic.SplitIfs
import VisualRules.Bytes.Utf8

/-!
# ASCII in bytes

A character of ASCII is one byte, and a byte of ASCII is always read as its character:
a run of bytes that begins another character ends in front of it.
-/

namespace VisualRules.Bytes

theorem ofText_singleton_of_lt {c : Char} (hc : c.toNat < 0x80) :
    ofText (String.singleton c) = [UInt8.ofNat c.toNat] := by
  have hle : c.toNat ≤ 127 := by omega
  simp [ofText, String.utf8EncodeChar, hle]

/-- The bytes that may follow the first one of a character are no characters of their own. -/
def Partial.Bounded (p : Partial) : Prop :=
  0x80 ≤ p.low

theorem bounded_of_start? {b : UInt8} {p : Partial} (h : start? b = some (.inr p)) : p.Bounded := by
  unfold start? leading? at h
  split at h
  · cases h
  · simp only [Option.map_eq_some_iff, Sum.inr.injEq, Prod.exists] at h
    obtain ⟨missing, bits, low, high, h, rfl⟩ := h
    simp only [Partial.Bounded]
    split_ifs at h <;> simp_all <;> omega

theorem start?_of_lt {b : UInt8} (hb : b < 0x80) : start? b = some (.inl (Char.ofNat b.toNat)) :=
  if_pos hb

theorem mem_decode {b : UInt8} (hb : b < 0x80) {bs : Bytes} (h : b ∈ bs) (state : Option Partial)
    (hstate : ∀ p ∈ state, p.Bounded) : some (Char.ofNat b.toNat) ∈ decode state bs := by
  have hbyte : b.toNat < 0x80 := hb
  induction bs generalizing state with
  | nil => cases h
  | cons x bs ih =>
    have hnone : ∀ p ∈ (none : Option Partial), p.Bounded := by simp
    rcases List.mem_cons.1 h with rfl | h
    · cases state with
      | none => simp [decode, start?_of_lt hb]
      | some p =>
        have hlow : 0x80 ≤ p.low := hstate p rfl
        have hout : ¬ (p.low ≤ b.toNat ∧ b.toNat ≤ p.high) := by omega
        simp [decode, start?_of_lt hb, hout]
    · have hrest : ∀ q, start? x = some (.inr q) → some (Char.ofNat b.toNat) ∈ decode (some q) bs :=
        fun q hq => ih h (some q) (by simpa using bounded_of_start? hq)
      have hfresh := ih h none hnone
      cases state with
      | none =>
        unfold decode
        split
        · simp [hfresh]
        · simp [hfresh]
        · exact hrest _ (by assumption)
      | some p =>
        have hinner : ∀ missing bits, some (Char.ofNat b.toNat) ∈
            decode (some ⟨missing, bits, 0x80, 0xBF⟩) bs :=
          fun missing bits => ih h _ (by simp [Partial.Bounded])
        unfold decode
        split
        · dsimp only
          split
          · exact List.mem_cons_of_mem _ hfresh
          · exact hinner _ _
        · split
          · simp [hfresh]
          · simp [hfresh]
          · exact List.mem_cons_of_mem _ (hrest _ (by assumption))

/-- A byte of ASCII is read as its character, whatever stands around it. -/
theorem mem_toChars {b : UInt8} (hb : b < 0x80) {bs : Bytes} (h : b ∈ bs) :
    Char.ofNat b.toNat ∈ bs.toChars :=
  List.mem_map.2 ⟨_, mem_decode hb h none (by simp), rfl⟩

end VisualRules.Bytes
