/-
# Character classes as ranges of code points

A property that a standard gives as a table is held as a list of closed ranges of code points in
increasing order, and a character has the property when one of the ranges holds its code point.
The tables themselves are in the modules named for their properties; they cover the code points
above the ASCII ones, for which each property has a rule of its own.
-/

namespace TaggedText.Text

/-- The code point lies in one of the closed ranges. -/
def inRanges (ranges : List (Nat × Nat)) (code : Nat) : Bool :=
  ranges.any fun r => r.1 ≤ code && code ≤ r.2

/-- Membership spelled out: **some range holds the code point between its bounds.** -/
theorem inRanges_iff (ranges : List (Nat × Nat)) (code : Nat) :
    inRanges ranges code = true ↔ ∃ r ∈ ranges, r.1 ≤ code ∧ code ≤ r.2 := by
  simp [inRanges]

/-- A character below code point 128. -/
def isAscii (c : Char) : Bool := c.toNat < 128

end TaggedText.Text
