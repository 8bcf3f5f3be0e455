/-!
# Blank text

White space in the sense of the Unicode property `White_Space`: the characters that are cut off
at both ends of a text, and the texts that hold nothing else.
-/

namespace VisualRules.Text

/-- The code points with the property `White_Space`, as closed ranges. -/
def blankRanges : List (Nat × Nat) :=
  [(0x09, 0x0D), (0x20, 0x20), (0x85, 0x85), (0xA0, 0xA0), (0x1680, 0x1680), (0x2000, 0x200A),
   (0x2028, 0x2029), (0x202F, 0x202F), (0x205F, 0x205F), (0x3000, 0x3000)]

/-- Whether a number lies in one of the closed ranges. -/
def inRanges (ranges : List (Nat × Nat)) (n : Nat) : Bool :=
  ranges.any fun r => r.1 ≤ n && n ≤ r.2

/-- White space. -/
def isBlankChar (c : Char) : Bool :=
  inRanges blankRanges c.toNat

/-- Whether a text has no character but white space; the empty text is blank. -/
def isBlank (s : String) : Bool :=
  s.toList.all isBlankChar

/-- Cuts off what satisfies `p` at both ends. -/
def trimBy (p : Char → Bool) (cs : List Char) : List Char :=
  ((cs.dropWhile p).reverse.dropWhile p).reverse

/-- Cuts off the white space at both ends. -/
def trim (s : String) : String :=
  String.ofList (trimBy isBlankChar s.toList)

/-- The lower-case form of the letters A to Z; all other characters stay. -/
def lowerAscii (s : String) : String :=
  String.ofList (s.toList.map Char.toLower)

/-- Equality that ignores the case of the letters A to Z. -/
def sameAscii (s t : String) : Bool :=
  lowerAscii s == lowerAscii t

/-! ## Small facts -/

theorem isBlankChar_of_isWhitespace {c : Char} (h : c.isWhitespace = true) :
    isBlankChar c = true := by
  simp only [Char.isWhitespace, Bool.or_eq_true, decide_eq_true_eq] at h
  rcases h with ((h | h) | h) | h <;> subst h <;> decide

theorem trimBy_of_all {p : Char → Bool} {cs : List Char} (h : cs.all p = true) :
    trimBy p cs = [] := by
  have hd : cs.dropWhile p = [] := by
    induction cs with
    | nil => rfl
    | cons c cs ih =>
      simp only [List.all_cons, Bool.and_eq_true] at h
      simp [h.1, ih h.2]
  simp [trimBy, hd]

end VisualRules.Text
