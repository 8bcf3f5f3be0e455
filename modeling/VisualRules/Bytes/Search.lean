import VisualRules.Bytes.Utf8

/-!
# Searching bytes

A sequence of bytes is cut where a pattern first occurs in it.
-/

namespace VisualRules.Bytes

/-- The bytes before and behind the first occurrence of a pattern, with those in `read`, which stand
in reverse order, in front. -/
def cutFrom? (pattern read : Bytes) : Bytes → Option (Bytes × Bytes)
  | [] => if pattern.isEmpty then some (read.reverse, []) else none
  | b :: bs =>
    if pattern.isPrefixOf (b :: bs) then some (read.reverse, (b :: bs).drop pattern.length)
    else cutFrom? pattern (b :: read) bs

/-- The bytes before and behind the first occurrence of a pattern. -/
def cut? (pattern bs : Bytes) : Option (Bytes × Bytes) :=
  cutFrom? pattern [] bs

end VisualRules.Bytes
