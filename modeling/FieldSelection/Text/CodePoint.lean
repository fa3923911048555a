/-
# Sets of code points

A property of characters is a list of ranges of code points, first and last
included.

Key definition: `CodePoint.inRanges`.
-/
namespace FieldSelection
namespace CodePoint

/-- Whether the code point lies in one of the ranges. -/
def inRanges (ranges : List (Nat × Nat)) (n : Nat) : Bool :=
  ranges.any fun r => r.1 ≤ n && n ≤ r.2

end CodePoint
end FieldSelection
