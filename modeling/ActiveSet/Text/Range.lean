/-
  Ranges of characters

  A class of characters is a list of closed ranges of their numbers. The
  tables are ascending and apart (`Text.ascending`), so each class has one
  table. They follow version 14.0 of the character database.
-/

namespace ActiveSet

namespace Text

/-- Whether a character's number lies in one of the ranges. -/
def inRanges (ranges : List (Nat × Nat)) (c : Char) : Bool :=
  ranges.any fun (low, high) => low ≤ c.toNat && c.toNat ≤ high

/-- Whether the ranges hold something each, ascend, and leave a gap between one and the next. -/
def ascending : List (Nat × Nat) → Bool
  | [] => true
  | [(low, high)] => low ≤ high
  | (low, high) :: (low', high') :: rest =>
    low ≤ high && high + 1 < low' && ascending ((low', high') :: rest)

end Text

end ActiveSet
